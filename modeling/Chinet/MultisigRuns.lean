import Chinet.MultisigSigning
import Chinet.Storage.Chain

/-!
# Signing a multisig input in any order

The participants are asked to sign in some order, some of them more than once.  Until the input is
fully signed every call is harmless; afterwards a call may still find a slot at the position of its
key, and its signature replaces the one that moved there.
-/

namespace Chinet

open SlotCollection

variable (crypto : CryptoPrimitives) (signer : MultisigSigner)

/-- A call of `sign_multisig_input_in_tx`; the keys are those of an account, whose spend secret
key belongs to the public one. -/
structure SigningCall where
  keys : AccountKeys
  random : Nat
  own : signer.secretKeyToPublicKey keys.spendSecretKey = some keys.accountAddress.spendPublicKey

section Runs

variable (sourceTx : Transaction) (inIndex outN : Nat) (target : TxoutMultisig)

/-- One call after the other. -/
def signAll (tx : Transaction) (calls : List (SigningCall signer)) : Transaction :=
  calls.foldl
    (fun tx call =>
      (signMultisigInputInTx crypto signer tx inIndex call.keys sourceTx call.random).tx) tx

/-- The positions of the keys of those who were asked to sign. -/
def signersOf (calls : List (SigningCall signer)) : Finset Nat :=
  (calls.filterMap fun call =>
    (participantOf signer sourceTx outN target call.keys).map Prod.fst).toFinset

/-- A call that finds the input fully signed and a slot at the position of its key: the slots before
that one hold signatures for the keys at their own positions. -/
def KeepsSlots (tx : Transaction) (call : SigningCall signer) : Prop :=
  ∀ j pub sec, participantOf signer sourceTx outN target call.keys = some (j, pub, sec) →
    filled nullSig (participantSignatures tx inIndex) = target.minimumSigs →
    j < (participantSignatures tx inIndex).length →
    ∀ i < j, ∀ s key, (participantSignatures tx inIndex)[i]? = some s →
      target.keys[i]? = some key →
      Verifies (crypto.checkSignature
        (preparePrefixHashForSign crypto tx inIndex (getTransactionHash crypto tx))) s key

def NoTakenSlots : Transaction → List (SigningCall signer) → Prop
  | _, [] => True
  | tx, call :: rest =>
      KeepsSlots crypto signer sourceTx inIndex outN target tx call ∧
        NoTakenSlots (signMultisigInputInTx crypto signer tx inIndex call.keys sourceTx call.random).tx
          rest

end Runs

/-- What signing promises to an account. -/
structure SigningLaws : Prop where
  verifies : ∀ (call : SigningCall signer) txKey i pub sec hash random,
    signer.deriveEphemeralKeyHelper call.keys txKey i = some (pub, sec) →
    crypto.checkSignature hash pub (signer.generateSignature hash pub sec random) = true
  notNull : ∀ hash pub sec random, signer.generateSignature hash pub sec random ≠ nullSig

/-- A multisig input as `construct_tx` leaves it: a null signature for each key, and behind them
the signature of whoever completed a separately signed transaction. -/
structure UnsignedInput (tx : Transaction) (inIndex keysCount : Nat) (extra : List Signature) :
    Prop where
  signatures : tx.signatures[inIndex]? = some (List.replicate keysCount nullSig ++ extra)
  extraLength : extra.length = if needToCheckExtraSign tx inIndex then 1 else 0
  extraSet : ∀ e ∈ extra, e ≠ nullSig

variable {crypto signer} {tx sourceTx : Transaction} {inIndex outN keysCount : Nat}
  {txin : TxinMultisig} {target : TxoutMultisig} {extra slots : List Signature}

theorem participantOf_spec {keys : AccountKeys} {j : Nat} {pub : PublicKey} {sec : SecretKey}
    (h : participantOf signer sourceTx outN target keys = some (j, pub, sec)) :
    signer.deriveEphemeralKeyHelper keys (getTxPubKeyFromExtra sourceTx.toTransactionPrefix) outN =
        some (pub, sec) ∧ target.keys[j]? = some pub := by
  rw [participantOf] at h
  split at h
  · cases h
  · rename_i pub' sec' hderive
    split at h
    · rename_i hlt
      cases h
      refine ⟨hderive, ?_⟩
      rw [List.getElem?_eq_getElem hlt, List.getElem_idxOf hlt]
    · cases h

theorem signatures_withInputSignatures (hlt : inIndex < tx.signatures.length) :
    (tx.withInputSignatures inIndex slots).signatures[inIndex]? = some slots := by
  rw [Transaction.withInputSignatures]
  exact List.getElem?_set_self hlt

theorem participantSignatures_eq (hsigs : tx.signatures[inIndex]? = some (slots ++ extra))
    (hlength : extra.length = if needToCheckExtraSign tx inIndex then 1 else 0) :
    participantSignatures tx inIndex = slots := by
  rw [participantSignatures, List.getD_eq_getElem?_getD, hsigs, Option.getD_some]
  split at hlength
  · rename_i hneed
    obtain ⟨e, rfl⟩ := List.length_eq_one_iff.mp hlength
    rw [if_pos hneed, List.dropLast_concat]
  · rename_i hneed
    rw [List.length_eq_zero_iff.mp hlength, if_neg hneed, List.append_nil]

/-- The state of a transaction after the participants with keys at the positions in `C` were asked
to sign. -/
structure SigningState (crypto : CryptoPrimitives) (sourceTx : Transaction) (inIndex outN : Nat)
    (txin : TxinMultisig) (target : TxoutMultisig) (hash : Hash) (extra : List Signature)
    (C : Finset Nat) (tx : Transaction) (slots : List Signature) : Prop where
  vin : tx.vin[inIndex]? = some (.multisig txin)
  source : findMultisigOut crypto sourceTx txin.multisigOutId = some (outN, target)
  keys : target.keys ≠ []
  minimumSigs : 0 < target.minimumSigs
  hashForSign : preparePrefixHashForSign crypto tx inIndex (getTransactionHash crypto tx) = hash
  hashSet : hash ≠ nullHash
  extraLength : extra.length = if needToCheckExtraSign tx inIndex then 1 else 0
  extraSet : ∀ e ∈ extra, e ≠ nullSig
  signatures : tx.signatures[inIndex]? = some (slots ++ extra)
  progress : Progress nullSig (Verifies (crypto.checkSignature hash)) target.keys target.minimumSigs
    C slots

section States

variable {hash : Hash} {C : Finset Nat}

theorem SigningState.slots_ne_nil
    (h : SigningState crypto sourceTx inIndex outN txin target hash extra C tx slots) :
    slots ≠ [] := by
  apply List.ne_nil_of_length_pos
  rcases h.progress with ⟨-, hcollecting⟩ | ⟨-, hcomplete⟩
  · rw [hcollecting.length]
    exact List.length_pos_iff.mpr h.keys
  · rw [hcomplete.length]
    exact h.minimumSigs

/-- The rest of a transaction does not depend on the signatures of an input. -/
theorem SigningState.withInputSignatures
    (h : SigningState crypto sourceTx inIndex outN txin target hash extra C tx slots)
    {C' : Finset Nat} {slots' : List Signature}
    (hprogress : Progress nullSig (Verifies (crypto.checkSignature hash)) target.keys
      target.minimumSigs C' slots') :
    SigningState crypto sourceTx inIndex outN txin target hash extra C'
      (tx.withInputSignatures inIndex (slots' ++ extra)) slots' :=
  { h with
    signatures := signatures_withInputSignatures (List.getElem?_eq_some_iff.mp h.signatures).1
    progress := hprogress }

/-- A harmless call. -/
theorem SigningState.call (hlaws : SigningLaws crypto signer)
    (h : SigningState crypto sourceTx inIndex outN txin target hash extra C tx slots)
    {call : SigningCall signer}
    (hcall : KeepsSlots crypto signer sourceTx inIndex outN target tx call) :
    ∃ slots', (signMultisigInputInTx crypto signer tx inIndex call.keys sourceTx call.random).tx =
        tx.withInputSignatures inIndex (slots' ++ extra) ∧
      SigningState crypto sourceTx inIndex outN txin target hash extra
        (C ∪ signersOf signer sourceTx outN target [call])
        (tx.withInputSignatures inIndex (slots' ++ extra)) slots' := by
  have htx := @signMultisigInputInTx_tx crypto signer tx sourceTx inIndex outN txin target slots
    extra h.vin h.source h.signatures h.slots_ne_nil h.extraLength h.extraSet
    (h.hashForSign.trans_ne h.hashSet) call.keys call.random
  rw [h.hashForSign] at htx
  cases hparticipant : participantOf signer sourceTx outN target call.keys with
  | none =>
      rw [hparticipant] at htx
      have hnobody : signersOf signer sourceTx outN target [call] = ∅ := by
        simp [signersOf, hparticipant]
      refine ⟨slots, ?_, ?_⟩
      · rw [htx, withInputSignatures_self h.signatures]
      · rw [hnobody, Finset.union_empty]
        exact h.withInputSignatures h.progress
  | some participant =>
      obtain ⟨j, pub, sec⟩ := participant
      rw [hparticipant] at htx
      obtain ⟨hderive, hkey⟩ := participantOf_spec hparticipant
      have hsigner : signersOf signer sourceTx outN target [call] = {j} := by
        simp [signersOf, hparticipant]
      have hharmless := hcall j pub sec hparticipant
      rw [participantSignatures_eq h.signatures h.extraLength, h.hashForSign] at hharmless
      have hverifies : Verifies (crypto.checkSignature hash)
          (signer.generateSignature hash pub sec call.random) pub :=
        hlaws.verifies call _ _ _ _ _ _ hderive
      have hstep := h.progress.step hkey (hlaws.notNull hash pub sec call.random) hverifies hharmless
      refine ⟨_, htx, ?_⟩
      rw [hsigner, Finset.union_comm, ← Finset.insert_eq]
      exact h.withInputSignatures hstep

/-- A run of harmless calls. -/
theorem SigningState.run (hlaws : SigningLaws crypto signer)
    (h : SigningState crypto sourceTx inIndex outN txin target hash extra C tx slots)
    {calls : List (SigningCall signer)}
    (hrun : NoTakenSlots crypto signer sourceTx inIndex outN target tx calls) :
    ∃ slots', signAll crypto signer sourceTx inIndex tx calls =
        tx.withInputSignatures inIndex (slots' ++ extra) ∧
      SigningState crypto sourceTx inIndex outN txin target hash extra
        (C ∪ signersOf signer sourceTx outN target calls)
        (tx.withInputSignatures inIndex (slots' ++ extra)) slots' := by
  induction calls generalizing tx C slots with
  | nil =>
      have hnobody : signersOf signer sourceTx outN target [] = ∅ := rfl
      refine ⟨slots, (withInputSignatures_self h.signatures).symm, ?_⟩
      rw [hnobody, Finset.union_empty]
      exact h.withInputSignatures h.progress
  | cons call rest ih =>
      obtain ⟨hcall, hrest⟩ := hrun
      obtain ⟨slots₁, htx, hstate⟩ := h.call hlaws hcall
      rw [htx] at hrest
      obtain ⟨slots', hall, hend⟩ := ih hstate hrest
      have hsigners : C ∪ signersOf signer sourceTx outN target [call] ∪
          signersOf signer sourceTx outN target rest =
            C ∪ signersOf signer sourceTx outN target (call :: rest) := by
        rw [Finset.union_assoc, signersOf, signersOf, signersOf, ← List.toFinset_append,
          ← List.filterMap_append]
        rfl
      rw [withInputSignatures_idem] at hall hend
      rw [hsigners] at hend
      refine ⟨slots', ?_, hend⟩
      rw [← hall, ← htx]
      rfl

end States

/-! ## Orders and repetitions -/

/-- A transaction with an unsigned multisig input for an output of a valid transaction; but for the
participants' signatures the input is fit to be checked. -/
structure MultisigTask (env : Env) (signer : MultisigSigner) (db : Db) (now : Nat)
    (tx sourceTx : Transaction) (inIndex outN : Nat) (txin : TxinMultisig) (target : TxoutMultisig) :
    Prop where
  laws : SigningLaws env.crypto signer
  vin : tx.vin[inIndex]? = some (.multisig txin)
  source : findMultisigOut env.crypto sourceTx txin.multisigOutId = some (outN, target)
  valid : checkOutsValid env.crypto sourceTx.toTransactionPrefix = true
  unsigned : ∃ extra, UnsignedInput tx inIndex target.keys.length extra
  ready : MsInputReady env db now tx inIndex txin (getTransactionHash env.crypto tx) sourceTx outN
    target

/-- Once as many participants were asked to sign as the output needs, in whatever order and however
often each, the input is accepted, as long as no call after the last needed one takes the slot of
a signature that moved. -/
theorem signed_input_accepted {env : Env} {signer : MultisigSigner} {db : Db} {now : Nat}
    {tx sourceTx : Transaction} {inIndex outN : Nat} {txin : TxinMultisig} {target : TxoutMultisig}
    (htask : MultisigTask env signer db now tx sourceTx inIndex outN txin target)
    (calls : List (SigningCall signer))
    (hrun : NoTakenSlots env.crypto signer sourceTx inIndex outN target tx calls)
    (hsigners : target.minimumSigs ≤ (signersOf signer sourceTx outN target calls).card)
    (inCheckpointZone : Bool) :
    checkMsInput env db inCheckpointZone now (signAll env.crypto signer sourceTx inIndex tx calls)
      inIndex txin
      (getTransactionHash env.crypto (signAll env.crypto signer sourceTx inIndex tx calls)) sourceTx
      outN = .ok () := by
  obtain ⟨extra, hunsigned⟩ := htask.unsigned
  have hready := htask.ready
  have hvalid : outIsValid env.crypto {
      amount := txin.amount
      target := .multisig target } = true :=
    List.all_eq_true.mp htask.valid _ (List.mem_of_getElem? hready.source)
  simp only [outIsValid, Bool.and_eq_true, decide_eq_true_eq] at hvalid
  obtain ⟨-, ⟨hkeys, hmin⟩, -⟩ := hvalid
  have hstart : SigningState env.crypto sourceTx inIndex outN txin target
      (preparePrefixHashForSign env.crypto tx inIndex (getTransactionHash env.crypto tx)) extra ∅ tx
      (List.replicate target.keys.length nullSig) :=
    { vin := htask.vin
      source := htask.source
      keys := List.length_pos_iff.mp hkeys
      minimumSigs := hmin
      hashForSign := rfl
      hashSet := hready.hash
      extraLength := hunsigned.extraLength
      extraSet := hunsigned.extraSet
      signatures := hunsigned.signatures
      progress := .inl ⟨hmin, Collecting.start⟩ }
  obtain ⟨slots, hall, hend⟩ := hstart.run htask.laws hrun
  rw [hall]
  rw [Finset.empty_union] at hend
  have hcomplete : Complete nullSig (Verifies (env.crypto.checkSignature
      (preparePrefixHashForSign env.crypto tx inIndex (getTransactionHash env.crypto tx))))
      target.keys target.minimumSigs slots := by
    rcases hend.progress with ⟨hfew, -⟩ | ⟨-, hcomplete⟩
    · exact absurd hsigners (not_le.mpr hfew)
    · exact hcomplete
  have hslots := participantSignatures_eq hend.signatures hend.extraLength
  apply checkMsInput_of_outside
  apply (checkMsInput_iff_matches _ _ _ _ _ _ _ _).mpr
  refine ⟨target, ?_, ?_, ?_⟩
  · refine { hready with
      signatures := (List.getElem?_eq_some_iff.mp hend.signatures).1
      extraSign := ?_ }
    intro hneed
    change needToCheckExtraSign tx inIndex = true at hneed
    have hbefore := hready.extraSign hneed
    have hlength := hunsigned.extraLength
    rw [if_pos hneed] at hlength
    obtain ⟨e, rfl⟩ := List.length_eq_one_iff.mp hlength
    rw [List.getD_eq_getElem?_getD, hunsigned.signatures, Option.getD_some, checkExtraSign,
      List.getLast?_concat] at hbefore
    rw [List.getD_eq_getElem?_getD, hend.signatures, Option.getD_some, checkExtraSign,
      List.getLast?_concat]
    exact hbefore
  · rw [hslots]
    exact hcomplete.length
  · rw [hslots]
    exact hcomplete.inOrder

/-! A sample: an output for two of three participants, where a signature names its key. -/

def sampleSignature (key : PublicKey) : Signature := BitVec.ofNat 512 (2 * key.toNat + 1)

def sampleMultisigEnv : Env :=
  { sampleEnv with
    crypto := { sampleCrypto with checkSignature := fun _ key s => s = sampleSignature key } }

def sampleSigner : MultisigSigner where
  secretKeyToPublicKey sec := some sec
  deriveEphemeralKeyHelper keys _ _ :=
    some (keys.accountAddress.spendPublicKey, keys.spendSecretKey)
  generateSignature _ pub _ _ := sampleSignature pub

def sampleMultisigTarget : TxoutMultisig where
  minimumSigs := 2
  keys := [1, 2, 3]

def sampleMultisigSource : Transaction where
  version := currentTransactionVersion
  extra := [.publicKey 9]
  vin := [.gen 0]
  vout := [{
    amount := 10
    target := .multisig sampleMultisigTarget }]
  signatures := []
  attachment := []

def sampleUnsignedInput : TxinMultisig where
  amount := 10
  multisigOutId := getMultisigOutId sampleMultisigEnv.crypto sampleMultisigSource.toTransactionPrefix 0
  sigsCount := 2
  etcDetails := []

def sampleUnsignedTx : Transaction where
  version := currentTransactionVersion
  extra := [.publicKey 5]
  vin := [.multisig sampleUnsignedInput]
  vout := []
  signatures := [[nullSig, nullSig, nullSig]]
  attachment := []

def sampleSigningCall (key : PublicKey) : SigningCall sampleSigner where
  keys := {
    accountAddress := {
      spendPublicKey := key
      viewPublicKey := key
      flags := 0 }
    spendSecretKey := key
    viewSecretKey := key }
  random := 0
  own := rfl

theorem sampleSignature_ne_nullSig (key : PublicKey) : sampleSignature key ≠ nullSig := by
  intro h
  have hodd : (sampleSignature key).getLsbD 0 = true := by
    rw [sampleSignature, BitVec.getLsbD_ofNat, Nat.testBit_zero, Nat.mul_add_mod]
    rfl
  rw [h] at hodd
  simp [nullSig] at hodd

theorem sampleMultisigTask :
    MultisigTask sampleMultisigEnv sampleSigner Db.empty 0 sampleUnsignedTx sampleMultisigSource 0 0
      sampleUnsignedInput sampleMultisigTarget where
  laws := {
    verifies := by
      intro call txKey i pub sec hash random _
      simp [sampleMultisigEnv, sampleSigner]
    notNull := fun _ pub _ _ => sampleSignature_ne_nullSig pub }
  vin := rfl
  source := by decide +kernel
  valid := by decide +kernel
  unsigned := ⟨[], {
    signatures := rfl
    extraLength := by decide +kernel
    extraSet := by simp }⟩
  ready := {
    source := rfl
    unlocked := ⟨0, by decide +kernel, by decide +kernel⟩
    sigsCount := rfl
    attachments := by decide +kernel
    signatures := by decide
    hash := by decide +kernel
    extraSign := by decide +kernel }

/-- The second and the third participant sign, the second one twice, and at last the first one. -/
def sampleSigningCalls : List (SigningCall sampleSigner) :=
  [sampleSigningCall 2, sampleSigningCall 2, sampleSigningCall 3, sampleSigningCall 1]

theorem signed_input_accepted_sample :
    checkMsInput sampleMultisigEnv Db.empty false 0
      (signAll sampleMultisigEnv.crypto sampleSigner sampleMultisigSource 0 sampleUnsignedTx
        sampleSigningCalls) 0 sampleUnsignedInput
      (getTransactionHash sampleMultisigEnv.crypto
        (signAll sampleMultisigEnv.crypto sampleSigner sampleMultisigSource 0 sampleUnsignedTx
          sampleSigningCalls)) sampleMultisigSource 0 = .ok () := by
  apply signed_input_accepted sampleMultisigTask sampleSigningCalls ?_ (by decide +kernel)
  refine ⟨?_, ?_, ?_, ?_, trivial⟩
  · intro j pub sec _ hfull
    exact absurd hfull (by decide +kernel)
  · intro j pub sec _ hfull
    exact absurd hfull (by decide +kernel)
  · intro j pub sec _ hfull
    exact absurd hfull (by decide +kernel)
  · intro j pub sec hparticipant _ _ i hi
    have hfirst : participantOf sampleSigner sampleMultisigSource 0 sampleMultisigTarget
        (sampleSigningCall 1).keys = some (0, 1, 1) := by decide +kernel
    rw [hfirst] at hparticipant
    cases hparticipant
    exact absurd hi (Nat.not_lt_zero i)

/-- The second and the third participant sign, and then the second one again: the new signature
takes the slot to which the third participant's signature moved. -/
theorem signed_input_invalidated :
    ¬ ∀ (env : Env) (signer : MultisigSigner) (db : Db) (now : Nat) (tx sourceTx : Transaction)
      (inIndex outN : Nat) (txin : TxinMultisig) (target : TxoutMultisig),
      MultisigTask env signer db now tx sourceTx inIndex outN txin target →
      ∀ calls : List (SigningCall signer),
        target.minimumSigs ≤ (signersOf signer sourceTx outN target calls).card →
        ∀ inCheckpointZone : Bool,
          checkMsInput env db inCheckpointZone now
            (signAll env.crypto signer sourceTx inIndex tx calls) inIndex txin
            (getTransactionHash env.crypto (signAll env.crypto signer sourceTx inIndex tx calls))
            sourceTx outN = .ok () := by
  intro h
  have haccepted := h sampleMultisigEnv sampleSigner Db.empty 0 sampleUnsignedTx sampleMultisigSource
    0 0 sampleUnsignedInput sampleMultisigTarget sampleMultisigTask
    [sampleSigningCall 2, sampleSigningCall 3, sampleSigningCall 2] (by decide +kernel) false
  exact absurd haccepted (by decide +kernel)

end Chinet
