import Chinet.Account.SeedPhrase
import Chinet.Lib.SlotCollection
import Chinet.Storage.MultisigSignatures

/-!
# Signing a multisig input

`sign_multisig_input_in_tx`.  Until the input is fully signed each participant's signature stands
at the position of the participant's key in the output; then the null signatures are removed.  A
later call looks for its slot at the position of the key again.
-/

namespace Chinet

open SlotCollection

variable (crypto : CryptoPrimitives)

/-- What signing takes from `crypto/`.  The last argument of `generateSignature` is the random
scalar it draws. -/
structure MultisigSigner where
  secretKeyToPublicKey : SecretKey → Option PublicKey
  deriveEphemeralKeyHelper : AccountKeys → PublicKey → Nat → Option (PublicKey × SecretKey)
  generateSignature : Hash → PublicKey → SecretKey → Nat → Signature

variable (signer : MultisigSigner)

def nullSig : Signature := 0

/-- What a call returns, and the transaction it leaves behind. -/
structure SignMultisigResult where
  result : Bool
  isInputFullySigned : Bool
  tx : Transaction

/-- The output with the given id and its index. -/
def findMultisigOut (sourceTx : Transaction) (multisigOutId : Hash) : Option (Nat × TxoutMultisig) :=
  (List.range sourceTx.vout.length).findSome? fun i =>
    match (sourceTx.vout[i]?).map TxOut.target with
    | some (.multisig out) =>
        if multisigOutId = getMultisigOutId crypto sourceTx.toTransactionPrefix i then some (i, out)
        else none
    | _ => none

def Transaction.withInputSignatures (tx : Transaction) (inIndex : Nat) (sigs : List Signature) :
    Transaction :=
  { tx with signatures := tx.signatures.set inIndex sigs }

/-- `sign_multisig_input_in_tx`.  The signature is written before the count is checked, so a call
that fails there leaves it behind. -/
def signMultisigInputInTx (tx : Transaction) (msInputIndex : Nat) (keys : AccountKeys)
    (sourceTx : Transaction) (random : Nat) : SignMultisigResult :=
  let refused : SignMultisigResult := ⟨false, false, tx⟩
  match tx.vin[msInputIndex]? with
  | some (.multisig msIn) =>
      match findMultisigOut crypto sourceTx msIn.multisigOutId with
      | none => refused
      | some (msOutIndex, outMs) =>
          match signer.deriveEphemeralKeyHelper keys
              (getTxPubKeyFromExtra sourceTx.toTransactionPrefix) msOutIndex with
          | none => refused
          | some (pub, sec) =>
              let participantIndex := outMs.keys.idxOf pub
              if participantIndex ≥ outMs.keys.length then refused
              else
                match tx.signatures[msInputIndex]? with
                | none => refused
                | some sigs =>
                    let allocatedSigsForParticipants :=
                      if needToCheckExtraSign tx msInputIndex then sigs.length - 1 else sigs.length
                    let hash := preparePrefixHashForSign crypto tx msInputIndex
                      (getTransactionHash crypto tx)
                    if sigs = [] then refused
                    else if participantIndex ≥ allocatedSigsForParticipants then refused
                    else if hash = nullHash then refused
                    else
                      let sigs := sigs.set participantIndex
                        (signer.generateSignature hash pub sec random)
                      let nonNullSigsCount := filled nullSig (sigs.take allocatedSigsForParticipants)
                      if nonNullSigsCount > outMs.minimumSigs then
                        ⟨false, false, tx.withInputSignatures msInputIndex sigs⟩
                      else if nonNullSigsCount = outMs.minimumSigs then
                        ⟨true, true, tx.withInputSignatures msInputIndex (compact nullSig sigs)⟩
                      else ⟨true, false, tx.withInputSignatures msInputIndex sigs⟩
  | _ => refused

/-- The position of the participant's key in the output, and the key pair. -/
def participantOf (sourceTx : Transaction) (outN : Nat) (target : TxoutMultisig)
    (keys : AccountKeys) : Option (Nat × PublicKey × SecretKey) :=
  match signer.deriveEphemeralKeyHelper keys
      (getTxPubKeyFromExtra sourceTx.toTransactionPrefix) outN with
  | none => none
  | some (pub, sec) =>
      if target.keys.idxOf pub < target.keys.length then some (target.keys.idxOf pub, pub, sec)
      else none

/-! ## What one call does to the signatures -/

section Call

variable {crypto signer} {tx sourceTx : Transaction} {inIndex outN : Nat} {txin : TxinMultisig}
  {target : TxoutMultisig} {slots extra : List Signature}

theorem withInputSignatures_self (h : tx.signatures[inIndex]? = some slots) :
    tx.withInputSignatures inIndex slots = tx := by
  obtain ⟨hlt, rfl⟩ := List.getElem?_eq_some_iff.mp h
  rw [Transaction.withInputSignatures, List.set_getElem_self]

@[simp] theorem withInputSignatures_idem (tx : Transaction) (inIndex : Nat)
    (slots slots' : List Signature) :
    (tx.withInputSignatures inIndex slots).withInputSignatures inIndex slots' =
      tx.withInputSignatures inIndex slots' := by
  rw [Transaction.withInputSignatures, Transaction.withInputSignatures,
    Transaction.withInputSignatures, List.set_set]

theorem compact_append (hextra : ∀ e ∈ extra, e ≠ nullSig) :
    compact nullSig (slots ++ extra) = compact nullSig slots ++ extra := by
  have hkeep : compact nullSig extra = extra := by
    rw [compact, List.filter_eq_self]
    intro e he
    simpa using hextra e he
  rw [compact, List.filter_append, ← compact, ← compact, hkeep]

/-- A call puts the signature of a participant into the slot at the position of the key, if the
slot is there. -/
theorem signMultisigInputInTx_tx (hvin : tx.vin[inIndex]? = some (.multisig txin))
    (hfind : findMultisigOut crypto sourceTx txin.multisigOutId = some (outN, target))
    (hsigs : tx.signatures[inIndex]? = some (slots ++ extra)) (hslots : slots ≠ [])
    (hlength : extra.length = if needToCheckExtraSign tx inIndex then 1 else 0)
    (hextra : ∀ e ∈ extra, e ≠ nullSig)
    (hhash : preparePrefixHashForSign crypto tx inIndex (getTransactionHash crypto tx) ≠ nullHash)
    (keys : AccountKeys) (random : Nat) :
    (signMultisigInputInTx crypto signer tx inIndex keys sourceTx random).tx =
      match participantOf signer sourceTx outN target keys with
      | none => tx
      | some (j, pub, sec) =>
          tx.withInputSignatures inIndex
            ((if j < slots.length then
              collect nullSig target.minimumSigs j
                (signer.generateSignature
                  (preparePrefixHashForSign crypto tx inIndex (getTransactionHash crypto tx)) pub sec
                  random) slots
            else slots) ++ extra) := by
  rw [signMultisigInputInTx, participantOf, hvin]
  simp only [hfind]
  cases signer.deriveEphemeralKeyHelper keys
      (getTxPubKeyFromExtra sourceTx.toTransactionPrefix) outN with
  | none => rfl
  | some pair =>
      obtain ⟨pub, sec⟩ := pair
      simp only
      by_cases hkey : target.keys.idxOf pub < target.keys.length
      · have hallocated : (if needToCheckExtraSign tx inIndex = true then
            (slots ++ extra).length - 1 else (slots ++ extra).length) = slots.length := by
          rw [List.length_append, hlength]
          split <;> omega
        have hne : ¬ slots ++ extra = [] := by simp [hslots]
        rw [if_neg (by omega), if_pos hkey, hsigs]
        simp only [hallocated, hne, if_false, hhash]
        by_cases hslot : target.keys.idxOf pub < slots.length
        · rw [if_neg (by omega), if_pos hslot, List.set_append_left _ _ hslot,
            List.take_left' List.length_set, collect]
          generalize slots.set (target.keys.idxOf pub) (signer.generateSignature
            (preparePrefixHashForSign crypto tx inIndex (getTransactionHash crypto tx)) pub sec
            random) = slots'
          by_cases hmany : filled nullSig slots' > target.minimumSigs
          · rw [if_pos hmany, if_neg (by omega)]
          · rw [if_neg hmany]
            split
            · rw [compact_append hextra]
            · rfl
        · rw [if_pos (by omega), if_neg hslot, withInputSignatures_self hsigs]
      · rw [if_pos (by omega), if_neg hkey]

end Call

end Chinet
