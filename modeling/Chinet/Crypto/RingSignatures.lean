import Chinet.Lib.PartialSteps
import Chinet.Serialization.BinaryArchive
import Mathlib.Data.List.Forall2
import Mathlib.Data.ZMod.Basic
import Mathlib.GroupTheory.OrderOfElement

/-!
# Ring signatures and one-time keys

The functions of `crypto.cpp` over an abstract group.  A scalar is 32 bytes, read as a
little-endian number, and the `sc_` functions calculate modulo the order of the group.

Signer and verifier go through the ring alike, except at the signer's place: there the signer
hashes the points of a random scalar, and finds the challenge and the answer behind the loop, so
that the challenges add up to the hash.
-/

namespace Chinet

open PartialSteps

abbrev EcScalar := BitVec 256
abbrev EcPoint := BitVec 256
abbrev KeyDerivation := BitVec 256

/-- A group of prime order with an encoding of its points, and the hashes. -/
structure CurveOps (P : Type) [AddCommGroup P] where
  order : Nat
  order_prime : order.Prime
  order_lt : order < 2 ^ 256
  order_smul : ∀ p : P, order • p = 0
  base : P
  /-- `ge_tobytes` -/
  toBytes : P → EcPoint
  /-- `ge_frombytes_vartime` -/
  fromBytes : EcPoint → Option P
  fromBytes_toBytes : ∀ p, fromBytes (toBytes p) = some p
  cnFastHash : ByteString → Vector UInt8 32
  /-- `ge_fromfe_frombytes_vartime` -/
  fromFe : Vector UInt8 32 → P

/-- A signature of one member of a ring. -/
structure RingSig where
  c : EcScalar
  r : EcScalar
deriving DecidableEq

/-- `rs_comm_entry` -/
structure RsCommEntry where
  a : EcPoint
  b : EcPoint
deriving DecidableEq

def podBytes (pod : BitVec 256) : ByteString := (serializeBlob 32).write pod

/-- The bytes of `rs_comm`. -/
def rsComm (h : Hash) (ab : List RsCommEntry) : ByteString :=
  podBytes h ++ ab.flatMap fun entry => podBytes entry.a ++ podBytes entry.b

namespace CurveOps

variable {P : Type} [AddCommGroup P] (ops : CurveOps P)

/-! ## Scalars -/

/-- `sc_check` returns zero. -/
def scCheck (s : EcScalar) : Bool := s.toNat < ops.order

def scalarOf (z : ZMod ops.order) : EcScalar := BitVec.ofNat 256 z.val

def scAdd (a b : EcScalar) : EcScalar := ops.scalarOf (a.toNat + b.toNat)

def scSub (a b : EcScalar) : EcScalar := ops.scalarOf (a.toNat - b.toNat)

/-- `c - a * b` -/
def scMulsub (a b c : EcScalar) : EcScalar := ops.scalarOf (c.toNat - a.toNat * b.toNat)

def hashToScalar (data : ByteString) : EcScalar :=
  ops.scalarOf (natOfBytes (ops.cnFastHash data).toList)

/-- `random_scalar`: 64 bytes, reduced. -/
def randomScalar {σ : Type} (randomBytes : σ → Nat × σ) (rng : σ) : EcScalar × σ :=
  (ops.scalarOf (randomBytes rng).1, (randomBytes rng).2)

/-! ## Keys -/

def checkKey (key : PublicKey) : Bool := (ops.fromBytes key).isSome

def secretKeyToPublicKey (sec : EcScalar) : Option PublicKey :=
  if !ops.scCheck sec then none else some (ops.toBytes (sec.toNat • ops.base))

def generateKeyDerivation (key1 : PublicKey) (key2 : EcScalar) :
    Defined (Option KeyDerivation) := do
  assert (ops.scCheck key2)
  match ops.fromBytes key1 with
  | none => return none
  | some point => return some (ops.toBytes (8 • (key2.toNat • point)))

def derivationToScalar (derivation : KeyDerivation) (outputIndex : UInt64) : Defined EcScalar := do
  let varint := writeVarint outputIndex.toNat
  assert (varint.length ≤ (8 * 8 + 6) / 7)
  return ops.hashToScalar (podBytes derivation ++ varint)

def derivePublicKey (derivation : KeyDerivation) (outputIndex : UInt64) (base : PublicKey) :
    Defined (Option PublicKey) :=
  match ops.fromBytes base with
  | none => return none
  | some point1 => do
      let scalar ← ops.derivationToScalar derivation outputIndex
      return some (ops.toBytes (point1 + scalar.toNat • ops.base))

def deriveSecretKey (derivation : KeyDerivation) (outputIndex : UInt64) (base : EcScalar) :
    Defined EcScalar := do
  assert (ops.scCheck base)
  let scalar ← ops.derivationToScalar derivation outputIndex
  return ops.scAdd base scalar

/-! ## Key images and ring signatures -/

def hashToEc (key : PublicKey) : P := 8 • ops.fromFe (ops.cnFastHash (podBytes key))

def generateKeyImage (pub : PublicKey) (sec : EcScalar) : Defined KeyImage := do
  assert (ops.scCheck sec)
  return ops.toBytes (sec.toNat • ops.hashToEc pub)

/-- The points `c * P + r * G` and `r * Hp(P) + c * I` of a member. -/
def ringEntry (imageUnp : P) (pub : PublicKey) (point : P) (sig : RingSig) : RsCommEntry where
  a := ops.toBytes (sig.c.toNat • point + sig.r.toNat • ops.base)
  b := ops.toBytes (sig.r.toNat • ops.hashToEc pub + sig.c.toNat • imageUnp)

/-- The variables of the loop of `generate_ring_signature`. -/
structure SignState (σ : Type) where
  rng : σ
  ab : List RsCommEntry
  sum : EcScalar
  k : EcScalar
  sig : List RingSig

variable {σ : Type} (randomBytes : σ → Nat × σ)

/-- A turn of the loop of `generate_ring_signature`.  `abort` ends the run. -/
def signStep (imageUnp : P) (secIndex i : Nat) (pub : PublicKey) (st : SignState σ) :
    Defined (SignState σ) :=
  if i = secIndex then
    let k := ops.randomScalar randomBytes st.rng
    let entry : RsCommEntry :=
      { a := ops.toBytes (k.1.toNat • ops.base)
        b := ops.toBytes (k.1.toNat • ops.hashToEc pub) }
    -- the signature at this place is written behind the loop
    return { rng := k.2
             ab := st.ab ++ [entry]
             sum := st.sum
             k := k.1
             sig := st.sig ++ [⟨0, 0⟩] }
  else
    let c := ops.randomScalar randomBytes st.rng
    let r := ops.randomScalar randomBytes c.2
    match ops.fromBytes pub with
    | none => .error .assertionFailed
    | some point =>
        return { rng := r.2
                 ab := st.ab ++ [ops.ringEntry imageUnp pub point ⟨c.1, r.1⟩]
                 sum := ops.scAdd st.sum c.1
                 k := st.k
                 sig := st.sig ++ [⟨c.1, r.1⟩] }

def signLoop (imageUnp : P) (secIndex : Nat) :
    (i : Nat) → List PublicKey → SignState σ → Defined (SignState σ)
  | _, [], st => .ok st
  | i, pub :: pubs, st => do
      let st ← ops.signStep randomBytes imageUnp secIndex i pub st
      signLoop imageUnp secIndex (i + 1) pubs st

/-- `generate_ring_signature`, with its assertions. -/
def generateRingSignature (rng : σ) (prefixHash : Hash) (image : KeyImage) (pubs : List PublicKey)
    (sec : EcScalar) (secIndex : Nat) : Defined (List RingSig × σ) := do
  let pub ← readAt pubs secIndex
  assert (ops.scCheck sec)
  assert (pub = ops.toBytes (sec.toNat • ops.base))
  let t3 ← ops.generateKeyImage pub sec
  assert (image = t3)
  assert (pubs.all ops.checkKey)
  match ops.fromBytes image with
  | none => .error .assertionFailed
  | some imageUnp => do
      let st ← ops.signLoop randomBytes imageUnp secIndex 0 pubs
        { rng, ab := [], sum := 0, k := 0, sig := [] }
      let h := ops.hashToScalar (rsComm prefixHash st.ab)
      let c := ops.scSub h st.sum
      return (st.sig.set secIndex ⟨c, ops.scMulsub c sec st.k⟩, st.rng)

/-- The loop of `check_ring_signature`; nothing where it returns false. -/
def checkLoop (imageUnp : P) :
    List (PublicKey × RingSig) → List RsCommEntry × EcScalar → Option (List RsCommEntry × EcScalar)
  | [], st => some st
  | (pub, sig) :: ring, (ab, sum) =>
      if !ops.scCheck sig.c || !ops.scCheck sig.r then none
      else
        match ops.fromBytes pub with
        | none => none
        | some point =>
            checkLoop imageUnp ring
              (ab ++ [ops.ringEntry imageUnp pub point sig], ops.scAdd sum sig.c)

/-- `check_ring_signature` of a ring with a signature for each key. -/
def checkRingSignature (prefixHash : Hash) (image : KeyImage) (pubs : List PublicKey)
    (sig : List RingSig) : Defined Bool := do
  assert (pubs.all ops.checkKey)
  match ops.fromBytes image with
  | none => return false
  | some imageUnp =>
      match ops.checkLoop imageUnp (pubs.zip sig) ([], 0) with
      | none => return false
      | some (ab, sum) =>
          let h := ops.hashToScalar (rsComm prefixHash ab)
          return decide (ops.scSub h sum = 0)

/-! ## Arithmetic modulo the order -/

instance : NeZero ops.order := ⟨ops.order_prime.ne_zero⟩

@[simp] theorem toNat_scalarOf (z : ZMod ops.order) : (ops.scalarOf z).toNat = z.val := by
  rw [scalarOf, BitVec.toNat_ofNat, Nat.mod_eq_of_lt ((ZMod.val_lt z).trans ops.order_lt)]

@[simp] theorem natCast_scalarOf (z : ZMod ops.order) :
    ((ops.scalarOf z).toNat : ZMod ops.order) = z := by
  rw [toNat_scalarOf, ZMod.natCast_zmod_val]

@[simp] theorem scCheck_scalarOf (z : ZMod ops.order) : ops.scCheck (ops.scalarOf z) = true := by
  rw [scCheck, toNat_scalarOf, decide_eq_true_eq]
  exact ZMod.val_lt z

/-- Multiples of a point depend on the scalar modulo the order. -/
theorem nsmul_congr {a b : Nat} (h : (a : ZMod ops.order) = b) (p : P) : a • p = b • p := by
  have hmod : a ≡ b [MOD ops.order] := (ZMod.natCast_eq_natCast_iff a b ops.order).mp h
  exact nsmul_eq_nsmul_iff_modEq.mpr
    (hmod.of_dvd (addOrderOf_dvd_of_nsmul_eq_zero (ops.order_smul p)))

/-! ## Key pairs -/

/-- A secret key with its public key. -/
structure KeyPair where
  sec : EcScalar
  pub : PublicKey
  pub_eq : ops.secretKeyToPublicKey sec = some pub

variable {ops}

theorem KeyPair.eq (keys : ops.KeyPair) :
    ops.scCheck keys.sec = true ∧ keys.pub = ops.toBytes (keys.sec.toNat • ops.base) := by
  have hpub := keys.pub_eq
  unfold secretKeyToPublicKey at hpub
  split_ifs at hpub with hcheck
  exact ⟨by simpa using hcheck, (Option.some.inj hpub).symm⟩

theorem KeyPair.fromBytes_pub (keys : ops.KeyPair) :
    ops.fromBytes keys.pub = some (keys.sec.toNat • ops.base) := by
  rw [keys.eq.2, ops.fromBytes_toBytes]

theorem generateKeyDerivation_eq (keys keys' : ops.KeyPair) :
    ops.generateKeyDerivation keys.pub keys'.sec =
      .ok (some (ops.toBytes (8 • (keys'.sec.toNat • keys.sec.toNat • ops.base)))) := by
  rw [generateKeyDerivation, assert_eq_ok keys'.eq.1, ok_bind, keys.fromBytes_pub]
  rfl

/-- Sender and recipient derive the same. -/
theorem generateKeyDerivation_comm (keys keys' : ops.KeyPair) :
    ops.generateKeyDerivation keys.pub keys'.sec =
      ops.generateKeyDerivation keys'.pub keys.sec := by
  rw [generateKeyDerivation_eq, generateKeyDerivation_eq,
    smul_comm keys'.sec.toNat keys.sec.toNat]

/-- The index fits into the ten bytes of the buffer. -/
theorem derivationToScalar_eq (derivation : KeyDerivation) (outputIndex : UInt64) :
    ops.derivationToScalar derivation outputIndex =
      .ok (ops.hashToScalar (podBytes derivation ++ writeVarint outputIndex.toNat)) := by
  have hlength : (writeVarint outputIndex.toNat).length ≤ 9 + 1 :=
    length_writeVarint_le (outputIndex.toNat_lt.trans (by decide))
  rw [derivationToScalar, assert_eq_ok (decide_eq_true hlength), ok_bind]
  rfl

/-- The two derivations lead to a key pair again. -/
theorem exists_derived (derivation : KeyDerivation) (outputIndex : UInt64) (keys : ops.KeyPair) :
    ∃ derived : ops.KeyPair,
      ops.derivePublicKey derivation outputIndex keys.pub = .ok (some derived.pub) ∧
        ops.deriveSecretKey derivation outputIndex keys.sec = .ok derived.sec := by
  obtain ⟨scalar, hscalar⟩ : ∃ scalar,
      ops.derivationToScalar derivation outputIndex = .ok scalar :=
    ⟨_, derivationToScalar_eq derivation outputIndex⟩
  have hsecret : ops.secretKeyToPublicKey (ops.scAdd keys.sec scalar) =
      some (ops.toBytes (keys.sec.toNat • ops.base + scalar.toNat • ops.base)) := by
    have hsum : ((ops.scAdd keys.sec scalar).toNat : ZMod ops.order) =
        ((keys.sec.toNat + scalar.toNat : Nat) : ZMod ops.order) := by
      rw [scAdd, natCast_scalarOf, Nat.cast_add]
    rw [secretKeyToPublicKey, if_neg (by simp [scAdd]), ops.nsmul_congr hsum, add_nsmul]
  refine ⟨⟨_, _, hsecret⟩, ?_, ?_⟩
  · rw [derivePublicKey, keys.fromBytes_pub]
    dsimp only
    rw [hscalar, ok_bind]
    rfl
  · rw [deriveSecretKey, assert_eq_ok keys.eq.1, ok_bind, hscalar, ok_bind]
    rfl

/-! ## The loops -/

/-- A member's signature passes the checks of the verifier, who finds the entry. -/
def Answers (imageUnp : P) (member : PublicKey × RingSig) (entry : RsCommEntry) : Prop :=
  ops.scCheck member.2.c = true ∧ ops.scCheck member.2.r = true ∧
    ∃ point, ops.fromBytes member.1 = some point ∧
      entry = ops.ringEntry imageUnp member.1 point member.2

theorem checkLoop_eq {imageUnp : P} {ring : List (PublicKey × RingSig)}
    {entries : List RsCommEntry} (h : List.Forall₂ (ops.Answers imageUnp) ring entries)
    (ab : List RsCommEntry) (sum : EcScalar) :
    ops.checkLoop imageUnp ring (ab, sum) =
      some (ab ++ entries, (ring.map fun member => member.2.c).foldl ops.scAdd sum) := by
  induction h generalizing ab sum with
  | nil => rw [checkLoop, List.append_nil, List.map_nil, List.foldl_nil]
  | cons hmember _ ih =>
      obtain ⟨hc, hr, point, hpoint, hentry⟩ := hmember
      rw [checkLoop, hc, hr, hpoint]
      dsimp only
      rw [if_neg (by decide), ih, ← hentry, List.append_assoc, List.singleton_append, List.map_cons,
        List.foldl_cons]

variable (ops) (randomBytes : σ → Nat × σ)

theorem signLoop_append (imageUnp : P) (secIndex i : Nat) (pubs pubs' : List PublicKey)
    (st : SignState σ) :
    ops.signLoop randomBytes imageUnp secIndex i (pubs ++ pubs') st =
      (ops.signLoop randomBytes imageUnp secIndex i pubs st >>= fun st =>
        ops.signLoop randomBytes imageUnp secIndex (i + pubs.length) pubs' st) := by
  induction pubs generalizing i st with
  | nil => rfl
  | cons pub pubs ih =>
      have hindex : i + (pub :: pubs).length = i + 1 + pubs.length := by
        rw [List.length_cons]
        omega
      rw [List.cons_append, hindex, signLoop, signLoop, bind_assoc]
      exact congrArg _ (funext fun st => ih (i + 1) st)

theorem exists_signStep_decoy (imageUnp : P) {secIndex i : Nat} {pub : PublicKey} {point : P}
    (hplace : i ≠ secIndex) (hpoint : ops.fromBytes pub = some point) (st : SignState σ) :
    ∃ rng c r, ops.scCheck c = true ∧ ops.scCheck r = true ∧
      ops.signStep randomBytes imageUnp secIndex i pub st =
        .ok { rng
              ab := st.ab ++ [ops.ringEntry imageUnp pub point ⟨c, r⟩]
              sum := ops.scAdd st.sum c
              k := st.k
              sig := st.sig ++ [⟨c, r⟩] } := by
  let c := ops.randomScalar randomBytes st.rng
  let r := ops.randomScalar randomBytes c.2
  refine ⟨r.2, c.1, r.1, ops.scCheck_scalarOf _, ops.scCheck_scalarOf _, ?_⟩
  rw [signStep, if_neg hplace, hpoint]
  rfl

theorem exists_signStep_signer (imageUnp : P) (secIndex : Nat) (pub : PublicKey)
    (st : SignState σ) :
    ∃ rng k, ops.signStep randomBytes imageUnp secIndex secIndex pub st =
      .ok { rng
            ab := st.ab ++ [{ a := ops.toBytes (k.toNat • ops.base)
                              b := ops.toBytes (k.toNat • ops.hashToEc pub) }]
            sum := st.sum
            k
            sig := st.sig ++ [⟨0, 0⟩] } :=
  ⟨_, _, if_pos rfl⟩

/-- Away from the signer's place the verifier finds what the signer hashed. -/
theorem exists_signLoop_decoys (imageUnp : P) {secIndex i : Nat} {pubs : List PublicKey}
    (hother : secIndex < i ∨ i + pubs.length ≤ secIndex)
    (hkeys : ∀ pub ∈ pubs, ops.checkKey pub = true) (st : SignState σ) :
    ∃ rng sigs entries, sigs.length = pubs.length ∧
      List.Forall₂ (ops.Answers imageUnp) (pubs.zip sigs) entries ∧
      ops.signLoop randomBytes imageUnp secIndex i pubs st =
        .ok { rng
              ab := st.ab ++ entries
              sum := (sigs.map RingSig.c).foldl ops.scAdd st.sum
              k := st.k
              sig := st.sig ++ sigs } := by
  induction pubs generalizing i st with
  | nil =>
      refine ⟨st.rng, [], [], rfl, .nil, ?_⟩
      rw [signLoop, List.append_nil, List.append_nil]
      rfl
  | cons pub pubs ih =>
      rw [List.length_cons] at hother
      have hplace : i ≠ secIndex := by omega
      obtain ⟨point, hpoint⟩ := Option.isSome_iff_exists.mp (hkeys pub List.mem_cons_self)
      obtain ⟨rng, c, r, hc, hr, hstep⟩ :=
        exists_signStep_decoy ops randomBytes imageUnp hplace hpoint st
      rw [signLoop, hstep, ok_bind]
      obtain ⟨rng', sigs, entries, hlength, hanswers, hloop⟩ :=
        ih (show secIndex < i + 1 ∨ i + 1 + pubs.length ≤ secIndex by omega)
          (fun key hkey => hkeys key (List.mem_cons_of_mem _ hkey)) _
      refine ⟨rng', ⟨c, r⟩ :: sigs, ops.ringEntry imageUnp pub point ⟨c, r⟩ :: entries,
        congrArg (· + 1) hlength, .cons ⟨hc, hr, point, hpoint, rfl⟩ hanswers, ?_⟩
      rw [hloop]
      simp only [List.append_assoc, List.singleton_append, List.map_cons, List.foldl_cons]

/-- The whole loop, around the signer. -/
theorem exists_signLoop (imageUnp : P) (pub : PublicKey) {before after : List PublicKey}
    (hbefore : ∀ key ∈ before, ops.checkKey key = true)
    (hafter : ∀ key ∈ after, ops.checkKey key = true) (rng : σ) :
    ∃ rng' k sigs sigs' entries entries',
      sigs.length = before.length ∧ sigs'.length = after.length ∧
      List.Forall₂ (ops.Answers imageUnp) (before.zip sigs) entries ∧
      List.Forall₂ (ops.Answers imageUnp) (after.zip sigs') entries' ∧
      ops.signLoop randomBytes imageUnp before.length 0 (before ++ pub :: after)
          { rng, ab := [], sum := 0, k := 0, sig := [] } =
        .ok { rng := rng'
              ab := entries ++ { a := ops.toBytes (k.toNat • ops.base)
                                 b := ops.toBytes (k.toNat • ops.hashToEc pub) } :: entries'
              sum := ((sigs ++ sigs').map RingSig.c).foldl ops.scAdd 0
              k
              sig := sigs ++ ⟨0, 0⟩ :: sigs' } := by
  obtain ⟨rng₁, sigs, entries, hlength, hanswers, hloop⟩ :=
    exists_signLoop_decoys ops randomBytes imageUnp (.inr (Nat.zero_add before.length).le) hbefore
      { rng, ab := [], sum := 0, k := 0, sig := [] }
  obtain ⟨rng₂, k, hsigner⟩ := exists_signStep_signer ops randomBytes imageUnp before.length pub
    { rng := rng₁
      ab := [] ++ entries
      sum := (sigs.map RingSig.c).foldl ops.scAdd 0
      k := 0
      sig := [] ++ sigs }
  obtain ⟨rng₃, sigs', entries', hlength', hanswers', hloop'⟩ :=
    exists_signLoop_decoys ops randomBytes imageUnp (.inl (Nat.lt_succ_self before.length)) hafter _
  refine ⟨rng₃, k, sigs, sigs', entries, entries', hlength, hlength', hanswers, hanswers', ?_⟩
  rw [signLoop_append, hloop, ok_bind, Nat.zero_add, signLoop, hsigner, ok_bind, hloop']
  simp only [List.nil_append, List.append_assoc, List.singleton_append, List.map_append,
    List.foldl_append]

/-! ## Completeness -/

variable {ops}

theorem natCast_foldl_scAdd (l : List EcScalar) (sum : EcScalar) :
    ((l.foldl ops.scAdd sum).toNat : ZMod ops.order) =
      sum.toNat + (l.map fun c => (c.toNat : ZMod ops.order)).sum := by
  induction l generalizing sum with
  | nil => simp
  | cons c l ih =>
      rw [List.foldl_cons, ih, scAdd, natCast_scalarOf, List.map_cons, List.sum_cons, add_assoc]

/-- With the challenge `c` and the answer `k - c * x`, the verifier finds the points of `k`. -/
theorem answers_signer {keys : ops.KeyPair} {c k : EcScalar} (hc : ops.scCheck c = true) :
    ops.Answers (keys.sec.toNat • ops.hashToEc keys.pub)
      (keys.pub, ⟨c, ops.scMulsub c keys.sec k⟩)
      { a := ops.toBytes (k.toNat • ops.base)
        b := ops.toBytes (k.toNat • ops.hashToEc keys.pub) } := by
  have hscalar : ((c.toNat * keys.sec.toNat + (ops.scMulsub c keys.sec k).toNat : Nat) :
      ZMod ops.order) = k.toNat := by
    rw [Nat.cast_add, Nat.cast_mul, scMulsub, natCast_scalarOf]
    ring
  refine ⟨hc, ops.scCheck_scalarOf _, _, keys.fromBytes_pub, ?_⟩
  rw [ringEntry, RsCommEntry.mk.injEq]
  constructor
  · rw [← mul_nsmul', ← add_nsmul, ops.nsmul_congr hscalar]
  · rw [← mul_nsmul', add_comm, ← add_nsmul, ops.nsmul_congr hscalar]

/-- What the verifier accepts: entries whose hash the challenges add up to. -/
theorem checkRingSignature_eq_true {prefixHash : Hash} {image : KeyImage} {imageUnp : P}
    {pubs : List PublicKey} {sig : List RingSig} {entries : List RsCommEntry}
    (hkeys : pubs.all ops.checkKey = true) (himage : ops.fromBytes image = some imageUnp)
    (hlength : sig.length = pubs.length)
    (hanswers : List.Forall₂ (ops.Answers imageUnp) (pubs.zip sig) entries)
    (hsum : (((sig.map RingSig.c).map fun c => (c.toNat : ZMod ops.order)).sum) =
      (ops.hashToScalar (rsComm prefixHash entries)).toNat) :
    ops.checkRingSignature prefixHash image pubs sig = .ok true := by
  have hchallenges : (pubs.zip sig).map (fun member => member.2.c) = sig.map RingSig.c := by
    calc (pubs.zip sig).map (fun member => member.2.c)
        = ((pubs.zip sig).map Prod.snd).map RingSig.c := List.map_map.symm
      _ = sig.map RingSig.c := by rw [List.map_snd_zip hlength.le]
  have hzero : ops.scSub (ops.hashToScalar (rsComm prefixHash entries))
      ((sig.map RingSig.c).foldl ops.scAdd 0) = 0 := by
    rw [scSub, natCast_foldl_scAdd, hsum]
    simp [scalarOf]
  rw [checkRingSignature, assert_eq_ok hkeys, ok_bind, himage]
  dsimp only
  rw [checkLoop_eq hanswers, hchallenges, List.nil_append]
  dsimp only
  rw [hzero]
  rfl

/-- The signature that is made for a place in a ring of valid keys is accepted. -/
theorem exists_generateRingSignature (randomBytes : σ → Nat × σ) (keys : ops.KeyPair)
    {pubs : List PublicKey} {secIndex : Nat} (hplace : pubs[secIndex]? = some keys.pub)
    (hkeys : pubs.all ops.checkKey = true) (prefixHash : Hash) (rng : σ) {image : KeyImage}
    (himage : ops.generateKeyImage keys.pub keys.sec = .ok image) :
    ∃ sig rng', ops.generateRingSignature randomBytes rng prefixHash image pubs keys.sec secIndex =
        .ok (sig, rng') ∧ sig.length = pubs.length ∧
      ops.checkRingSignature prefixHash image pubs sig = .ok true := by
  obtain ⟨hcheck, hpub⟩ := keys.eq
  have himageEq : image = ops.toBytes (keys.sec.toNat • ops.hashToEc keys.pub) := by
    rw [generateKeyImage, assert_eq_ok hcheck, ok_bind] at himage
    exact (Except.ok.inj himage).symm
  have hunpacked : ops.fromBytes image = some (keys.sec.toNat • ops.hashToEc keys.pub) := by
    rw [himageEq, ops.fromBytes_toBytes]
  -- the ring around the signer
  obtain ⟨before, after, hring, hbefore⟩ : ∃ before after, pubs = before ++ keys.pub :: after ∧
      before.length = secIndex := by
    obtain ⟨hlt, hget⟩ := List.getElem?_eq_some_iff.mp hplace
    refine ⟨pubs.take secIndex, pubs.drop (secIndex + 1), ?_, ?_⟩
    · rw [← hget, ← List.drop_eq_getElem_cons hlt, List.take_append_drop]
    · rw [List.length_take]
      omega
  have hvalid : ∀ pub ∈ before ++ keys.pub :: after, ops.checkKey pub = true :=
    hring ▸ List.all_eq_true.mp hkeys
  obtain ⟨rng', k, sigs, sigs', entries, entries', hlength, hlength', hanswers, hanswers', hloop⟩ :=
    exists_signLoop ops randomBytes (keys.sec.toNat • ops.hashToEc keys.pub) keys.pub
      (fun pub hpub => hvalid pub (List.mem_append_left _ hpub))
      (fun pub hpub => hvalid pub (List.mem_append_right _ (List.mem_cons_of_mem _ hpub))) rng
  rw [hbefore, ← hring] at hloop
  obtain ⟨ab, hab⟩ : ∃ ab, entries ++ { a := ops.toBytes (k.toNat • ops.base)
                                        b := ops.toBytes (k.toNat • ops.hashToEc keys.pub) } ::
      entries' = ab := ⟨_, rfl⟩
  obtain ⟨c, hc⟩ : ∃ c, ops.scSub (ops.hashToScalar (rsComm prefixHash ab))
      (((sigs ++ sigs').map RingSig.c).foldl ops.scAdd 0) = c := ⟨_, rfl⟩
  have hccheck : ops.scCheck c = true := hc ▸ ops.scCheck_scalarOf _
  have hsize : (sigs ++ ⟨c, ops.scMulsub c keys.sec k⟩ :: sigs').length = pubs.length := by
    rw [hring, List.length_append, List.length_append, List.length_cons, List.length_cons, hlength,
      hlength']
  refine ⟨sigs ++ ⟨c, ops.scMulsub c keys.sec k⟩ :: sigs', rng', ?_, hsize, ?_⟩
  · have hset : (sigs ++ ⟨0, 0⟩ :: sigs').set secIndex ⟨c, ops.scMulsub c keys.sec k⟩ =
        sigs ++ ⟨c, ops.scMulsub c keys.sec k⟩ :: sigs' := by
      rw [List.set_append_right _ _ (by omega), show secIndex - sigs.length = 0 by omega,
        List.set_cons_zero]
    have hread : readAt pubs secIndex = .ok keys.pub := by rw [readAt, hplace]
    rw [generateRingSignature, hread, ok_bind, assert_eq_ok hcheck, ok_bind,
      assert_eq_ok (decide_eq_true hpub), ok_bind, himage, ok_bind,
      assert_eq_ok (decide_eq_true rfl), ok_bind, assert_eq_ok hkeys, ok_bind, hunpacked]
    dsimp only
    rw [hloop, ok_bind]
    dsimp only
    rw [hab, hc, hset]
    rfl
  · have hzip : pubs.zip (sigs ++ ⟨c, ops.scMulsub c keys.sec k⟩ :: sigs') =
        before.zip sigs ++ (keys.pub, ⟨c, ops.scMulsub c keys.sec k⟩) :: after.zip sigs' := by
      rw [hring, List.zip_append hlength.symm, List.zip_cons_cons]
    have hsigner : ops.Answers (keys.sec.toNat • ops.hashToEc keys.pub)
        (keys.pub, ⟨c, ops.scMulsub c keys.sec k⟩)
        { a := ops.toBytes (k.toNat • ops.base)
          b := ops.toBytes (k.toNat • ops.hashToEc keys.pub) } := answers_signer hccheck
    have hall : List.Forall₂ (ops.Answers (keys.sec.toNat • ops.hashToEc keys.pub))
        (pubs.zip (sigs ++ ⟨c, ops.scMulsub c keys.sec k⟩ :: sigs')) ab := by
      rw [hzip, ← hab]
      exact List.rel_append hanswers (List.Forall₂.cons hsigner hanswers')
    refine checkRingSignature_eq_true hkeys hunpacked hsize hall ?_
    -- the challenge of the signer is what the others leave of the hash
    have hchallenge := ops.natCast_scalarOf
      ((ops.hashToScalar (rsComm prefixHash ab)).toNat -
        (((sigs ++ sigs').map RingSig.c).foldl ops.scAdd 0).toNat)
    change ((ops.scSub _ _).toNat : ZMod ops.order) = _ at hchallenge
    rw [hc, natCast_foldl_scAdd] at hchallenge
    simp only [List.map_append, List.map_cons, List.sum_append, List.sum_cons] at hchallenge ⊢
    have hzero : (((0 : EcScalar).toNat : Nat) : ZMod ops.order) = 0 := Nat.cast_zero
    rw [hchallenge, hzero]
    ring

/-- Every ring signature that is made is accepted, with the one image of the key; and the secret
key derived for an output is the one of the public key derived for it. -/
theorem ring_signatures_complete (ops : CurveOps P) (randomBytes : σ → Nat × σ) :
    (∀ keys : ops.KeyPair, ∃ image, ops.generateKeyImage keys.pub keys.sec = .ok image ∧
      ∀ (pubs : List PublicKey) (secIndex : Nat) (prefixHash : Hash) (rng : σ),
        pubs[secIndex]? = some keys.pub → pubs.all ops.checkKey = true →
          ∃ sig rng',
            ops.generateRingSignature randomBytes rng prefixHash image pubs keys.sec secIndex =
              .ok (sig, rng') ∧ sig.length = pubs.length ∧
            ops.checkRingSignature prefixHash image pubs sig = .ok true) ∧
    (∀ (txKeys viewKeys spendKeys : ops.KeyPair) (outputIndex : UInt64),
      ∃ (derivation : KeyDerivation) (derived : ops.KeyPair),
        ops.generateKeyDerivation viewKeys.pub txKeys.sec = .ok (some derivation) ∧
        ops.generateKeyDerivation txKeys.pub viewKeys.sec = .ok (some derivation) ∧
        ops.derivePublicKey derivation outputIndex spendKeys.pub = .ok (some derived.pub) ∧
        ops.deriveSecretKey derivation outputIndex spendKeys.sec = .ok derived.sec) := by
  refine ⟨fun keys => ?_, fun txKeys viewKeys spendKeys outputIndex => ?_⟩
  · obtain ⟨image, himage⟩ : ∃ image, ops.generateKeyImage keys.pub keys.sec = .ok image :=
      ⟨_, by rw [generateKeyImage, assert_eq_ok keys.eq.1, ok_bind]; rfl⟩
    exact ⟨image, himage, fun pubs secIndex prefixHash rng hplace hkeys =>
      exists_generateRingSignature randomBytes keys hplace hkeys prefixHash rng himage⟩
  · obtain ⟨derivation, hderivation⟩ : ∃ derivation,
        ops.generateKeyDerivation viewKeys.pub txKeys.sec = .ok (some derivation) :=
      ⟨_, generateKeyDerivation_eq viewKeys txKeys⟩
    obtain ⟨derived, hpublic, hsecret⟩ := exists_derived derivation outputIndex spendKeys
    exact ⟨derivation, derived, hderivation,
      (generateKeyDerivation_comm txKeys viewKeys).trans hderivation, hpublic, hsecret⟩

/-- A group of five points, with the numbers from 1 on as their encodings. -/
def five : CurveOps (ZMod 5) where
  order := 5
  order_prime := Nat.prime_five
  order_lt := by decide
  order_smul := fun p => by simpa using ZModModule.char_nsmul_eq_zero 5 p
  base := 1
  toBytes := fun p => BitVec.ofNat 256 (p.val + 1)
  fromBytes := fun b =>
    if 1 ≤ b.toNat ∧ b.toNat ≤ 5 then some ((b.toNat - 1 : Nat) : ZMod 5) else none
  fromBytes_toBytes := by decide
  cnFastHash := fun data => Vector.replicate 32 (UInt8.ofNat data.length)
  fromFe := fun _ => 1

/-- The key pairs of 2 and 3. -/
def fiveKeys (sec : Fin 2) : five.KeyPair where
  sec := BitVec.ofNat 256 (sec.val + 2)
  pub := BitVec.ofNat 256 (sec.val + 3)
  pub_eq := by
    revert sec
    decide

/-- The second of a ring of two signs, who has the key 2; and an output goes to that key. -/
theorem ring_signatures_complete_sample :
    (∃ image, five.generateKeyImage 3 2 = .ok image ∧ ∃ sig rng',
      five.generateRingSignature (fun n : Nat => (n, n + 1)) 0 0 image [4, 3] 2 1 =
        .ok (sig, rng') ∧ sig.length = 2 ∧ five.checkRingSignature 0 image [4, 3] sig = .ok true) ∧
    (∃ derivation derived, five.generateKeyDerivation 3 3 = .ok (some derivation) ∧
      five.derivePublicKey derivation 1 3 = .ok (some derived)) := by
  have hcomplete := ring_signatures_complete five (fun n : Nat => (n, n + 1))
  constructor
  · obtain ⟨image, himage, hring⟩ := hcomplete.1 (fiveKeys 0)
    exact ⟨image, himage, hring [4, 3] 1 0 0 rfl (by decide)⟩
  · obtain ⟨derivation, derived, hderivation, -, hpublic, -⟩ :=
      hcomplete.2 (fiveKeys 1) (fiveKeys 0) (fiveKeys 0) 1
    exact ⟨derivation, derived.pub, hderivation, hpublic⟩

end CurveOps
end Chinet
