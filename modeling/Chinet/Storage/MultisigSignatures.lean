import Chinet.Lib.GreedyMatching
import Chinet.Storage.Inputs

/-!
# The signatures of a multisig input

`check_ms_input` goes through the keys of a multisig output once and gives each signature the next
key that verifies it.  That finds an assignment of the signatures to keys, later signatures to
later keys, whenever there is one.  In the last input of a separately signed transaction the
signature of whoever completed it follows those of the participants.
-/

namespace Chinet

open GreedyMatching

variable (env : Env)

def Verifies (checkSig : PublicKey → Signature → Bool) (s : Signature) (key : PublicKey) : Prop :=
  checkSig key s = true

/-- The loop accepts exactly the signatures that can be assigned to keys in order. -/
theorem matchSignatures_iff (checkSig : PublicKey → Signature → Bool) (signatures : List Signature)
    (keys : List PublicKey) :
    matchSignatures checkSig signatures keys = true ↔
      Matches (Verifies checkSig) signatures keys := by
  fun_induction matchSignatures checkSig signatures keys with
  | case1 keys => exact iff_of_true rfl matches_nil
  | case2 s rest => exact iff_of_false Bool.false_ne_true not_matches_nil
  | case3 s rest key keys hfits ih =>
      have hverifies : Verifies checkSig s key := hfits
      rw [ih, matches_cons_of_fits hverifies]
  | case4 s rest key keys hmiss ih =>
      have hverifies : ¬ Verifies checkSig s key := hmiss
      rw [ih, matches_cons_of_not_fits hverifies]

/-- The signatures of the participants in an input. -/
def participantSignatures (tx : Transaction) (inIndex : Nat) : List Signature :=
  if needToCheckExtraSign tx inIndex then (tx.signatures.getD inIndex []).dropLast
  else tx.signatures.getD inIndex []

/-- What `check_ms_input` asks for besides the signatures of the participants. -/
structure MsInputReady (db : Db) (now : Nat) (tx : Transaction) (inIndex : Nat)
    (txin : TxinMultisig) (txPrefixHash : Hash) (sourceTx : Transaction) (outN : Nat)
    (target : TxoutMultisig) : Prop where
  source : sourceTx.vout[outN]? = some {
    amount := txin.amount
    target := .multisig target }
  unlocked : ∃ unlockTime, getTxUnlockTime sourceTx.toTransactionPrefix outN = .ok unlockTime ∧
    isTxSpendtimeUnlocked unlockTime db.size now = true
  sigsCount : txin.sigsCount = target.minimumSigs
  attachments : checkInputAttachments env tx inIndex txin.etcDetails = .ok ()
  signatures : inIndex < tx.signatures.length
  hash : preparePrefixHashForSign env.crypto tx inIndex txPrefixHash ≠ nullHash
  extraSign : needToCheckExtraSign tx inIndex = true →
    checkExtraSign env tx txPrefixHash (tx.signatures.getD inIndex []) = true

variable {env}

/-- The signatures that the loop looks at. -/
theorem signatures_eq_participants {tx : Transaction} {inIndex count : Nat}
    (hextra : needToCheckExtraSign tx inIndex = true →
      ∃ txPrefixHash, checkExtraSign env tx txPrefixHash (tx.signatures.getD inIndex []) = true) :
    count + (if needToCheckExtraSign tx inIndex then 1 else 0) =
        (tx.signatures.getD inIndex []).length ↔
      (participantSignatures tx inIndex).length = count := by
  rw [participantSignatures]
  cases hneed : needToCheckExtraSign tx inIndex with
  | false => simp [eq_comm]
  | true =>
      obtain ⟨txPrefixHash, hsign⟩ := hextra hneed
      have hpos : tx.signatures.getD inIndex [] ≠ [] := by
        intro hnil
        rw [hnil] at hsign
        cases hsign
      have hlength := List.length_pos_iff.mpr hpos
      rw [if_pos rfl, if_pos rfl, List.length_dropLast]
      omega

theorem take_eq_participants {tx : Transaction} {inIndex count : Nat}
    (h : count + (if needToCheckExtraSign tx inIndex then 1 else 0) =
      (tx.signatures.getD inIndex []).length) :
    (tx.signatures.getD inIndex []).take count = participantSignatures tx inIndex := by
  rw [participantSignatures]
  cases hneed : needToCheckExtraSign tx inIndex with
  | false =>
      rw [hneed, if_neg Bool.false_ne_true, Nat.add_zero] at h
      rw [if_neg Bool.false_ne_true, h, List.take_length]
  | true =>
      rw [hneed, if_pos rfl] at h
      rw [if_pos rfl, List.dropLast_eq_take, ← h, Nat.add_sub_cancel]

theorem checkMsInput_iff_matches (db : Db) (now : Nat) (tx : Transaction) (inIndex : Nat)
    (txin : TxinMultisig) (txPrefixHash : Hash) (sourceTx : Transaction) (outN : Nat) :
    checkMsInput env db false now tx inIndex txin txPrefixHash sourceTx outN = .ok () ↔
      ∃ target, MsInputReady env db now tx inIndex txin txPrefixHash sourceTx outN target ∧
        (participantSignatures tx inIndex).length = target.minimumSigs ∧
        Matches (Verifies (env.crypto.checkSignature
          (preparePrefixHashForSign env.crypto tx inIndex txPrefixHash)))
          (participantSignatures tx inIndex) target.keys := by
  constructor
  · intro h
    unfold checkMsInput at h
    rw [bind_eq_ok] at h
    obtain ⟨unlockTime, htime, h⟩ := h
    rw [require_bind_eq_ok] at h
    obtain ⟨hunlocked, h⟩ := h
    cases hout : sourceTx.vout[outN]? with
    | none =>
        rw [hout] at h
        cases h
    | some out =>
        rw [hout] at h
        obtain ⟨amount, target⟩ := out
        cases target with
        | toKey target => cases h
        | htlc target => cases h
        | multisig target =>
            simp only [Bool.false_eq_true, if_false, require_bind_eq_ok, decide_eq_true_eq] at h
            obtain ⟨hsigs, hamount, h⟩ := h
            rw [bind_eq_ok] at h
            obtain ⟨⟨⟩, hattachments, h⟩ := h
            simp only [require_bind_eq_ok, decide_eq_true_eq, bne_iff_ne, require_eq_ok] at h
            obtain ⟨hsignatures, hlength, hhash, -, hmatch, hextra⟩ := h
            -- the extra signature is checked only where the transaction is not complete
            have hsign : needToCheckExtraSign tx inIndex = true →
                checkExtraSign env tx txPrefixHash (tx.signatures.getD inIndex []) = true := by
              intro hneed
              simpa [hneed] using hextra
            refine ⟨target, ⟨by rw [hout, hamount], ⟨unlockTime, htime, hunlocked⟩, hsigs,
              hattachments, hsignatures, hhash, hsign⟩, ?_, ?_⟩
            · rw [← hsigs]
              exact (@signatures_eq_participants env tx inIndex txin.sigsCount fun hneed =>
                ⟨txPrefixHash, hsign hneed⟩).mp hlength
            · rw [take_eq_participants hlength] at hmatch
              exact (matchSignatures_iff _ _ _).mp hmatch
  · intro h
    obtain ⟨target, hready, hcount, hmatches⟩ := h
    obtain ⟨unlockTime, htime, hunlocked⟩ := hready.unlocked
    have hlength := (@signatures_eq_participants env tx inIndex txin.sigsCount fun hneed =>
      ⟨txPrefixHash, hready.extraSign hneed⟩).mpr (hcount.trans hready.sigsCount.symm)
    -- signatures that match are no more than the keys
    have henough : txin.sigsCount ≤ target.keys.length := by
      rw [hready.sigsCount, ← hcount]
      exact hmatches.length_le
    have hmatch := (matchSignatures_iff _ _ _).mpr hmatches
    rw [← take_eq_participants hlength] at hmatch
    unfold checkMsInput
    rw [bind_eq_ok]
    refine ⟨unlockTime, htime, ?_⟩
    rw [require_bind_eq_ok, hready.source]
    simp only [Bool.false_eq_true, if_false, require_bind_eq_ok, decide_eq_true_eq]
    refine ⟨hunlocked, hready.sigsCount, trivial, ?_⟩
    rw [bind_eq_ok]
    refine ⟨(), hready.attachments, ?_⟩
    simp only [require_bind_eq_ok, decide_eq_true_eq, bne_iff_ne, require_eq_ok]
    refine ⟨hready.signatures, hlength, hready.hash, henough, hmatch, ?_⟩
    cases hneed : needToCheckExtraSign tx inIndex with
    | false => rfl
    | true =>
        rw [hready.extraSign hneed]
        rfl

/-- Outside the checkpoint zone a multisig input that is fine otherwise is accepted exactly if the
participants' signatures are as many as the output asks for and can be assigned to its keys in
order, each to one that verifies it. -/
theorem checkMsInput_iff_assignment (db : Db) (now : Nat) (tx : Transaction) (inIndex : Nat)
    (txin : TxinMultisig) (txPrefixHash : Hash) (sourceTx : Transaction) (outN : Nat) :
    checkMsInput env db false now tx inIndex txin txPrefixHash sourceTx outN = .ok () ↔
      ∃ target, MsInputReady env db now tx inIndex txin txPrefixHash sourceTx outN target ∧
        (participantSignatures tx inIndex).length = target.minimumSigs ∧
        ∃ f : Fin (participantSignatures tx inIndex).length → Fin target.keys.length,
          StrictMono f ∧ ∀ i, env.crypto.checkSignature
            (preparePrefixHashForSign env.crypto tx inIndex txPrefixHash) (target.keys.get (f i))
            ((participantSignatures tx inIndex).get i) = true :=
  checkMsInput_iff_matches db now tx inIndex txin txPrefixHash sourceTx outN

/-- In the checkpoint zone fewer things are checked. -/
theorem checkMsInput_of_outside {db : Db} {now : Nat} {tx : Transaction} {inIndex : Nat}
    {txin : TxinMultisig} {txPrefixHash : Hash} {sourceTx : Transaction} {outN : Nat}
    (h : checkMsInput env db false now tx inIndex txin txPrefixHash sourceTx outN = .ok ())
    (inCheckpointZone : Bool) :
    checkMsInput env db inCheckpointZone now tx inIndex txin txPrefixHash sourceTx outN = .ok () := by
  cases inCheckpointZone with
  | false => exact h
  | true =>
      obtain ⟨target, hready, -, -⟩ := (checkMsInput_iff_matches _ _ _ _ _ _ _ _).mp h
      obtain ⟨unlockTime, htime, hunlocked⟩ := hready.unlocked
      unfold checkMsInput
      rw [bind_eq_ok]
      refine ⟨unlockTime, htime, ?_⟩
      rw [require_bind_eq_ok, hready.source]
      simp only [if_true, require_bind_eq_ok, decide_eq_true_eq]
      exact ⟨hunlocked, hready.sigsCount, trivial, rfl⟩

end Chinet
