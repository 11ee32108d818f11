import Chinet.FormatUtils
import Chinet.Lib.PartialSteps
import Chinet.Serialization.WireFormat

/-!
# The size of a transaction without serializing it

`get_object_blobsize` serializes the prefix only.  The signatures are counted as the inputs ask for
them, and the attachments are as long as the `extra_attachment_info` says, so the result is the same
for a transaction whose signatures and attachments were pruned.

The signatures come out right whenever they are there as asked for (`length_signatures`).  What
decides is the attachments: nothing here compares the size in the `extra_attachment_info` with
them.
-/

namespace Chinet
namespace Wire

open PartialSteps

/-- `get_input_expected_signatures_count`. -/
def getInputExpectedSignaturesCount : Txin → Nat
  | .gen _ => 0
  | .toKey txin => txin.keyOffsets.length
  | .multisig txin => txin.sigsCount
  | .htlc _ => 1

/-- `get_input_etc_details`. -/
def getInputEtcDetails : Txin → Option (List TxinEtcDetails)
  | .gen _ => none
  | .toKey txin => some txin.etcDetails
  | .multisig txin => some txin.etcDetails
  | .htlc txin => some txin.etcDetails

def PayloadItem.asDetailsFlags? : PayloadItem → Option Nat
  | .detailsFlags v => some v
  | _ => none

def PayloadItem.asAttachmentInfo? : PayloadItem → Option ExtraAttachmentInfo
  | .attachmentInfo info => some info
  | _ => none

/-- `get_tx_flags`. -/
def TransactionPrefix.getTxFlags (tx : TransactionPrefix) : Nat :=
  (tx.extra.findSome? PayloadItem.asDetailsFlags?).getD 0

/-- `get_tx_flags(t) & TX_FLAG_SIGNATURE_MODE_SEPARATE`. -/
def TransactionPrefix.separatelySigned (tx : TransactionPrefix) : Bool :=
  tx.getTxFlags % 2 == txFlagSignatureModeSeparate

/-- `is_coinbase`. -/
def TransactionPrefix.isCoinbase (tx : TransactionPrefix) : Bool :=
  match tx.vin with
  | .gen _ :: rest => rest.length ≤ 1
  | _ => false

/-- The `extra_attachment_info` of the last input of a separately signed transaction, or else of the
extra.  The source takes `back` of the inputs without asking whether there is one. -/
def TransactionPrefix.attachmentInfo? (tx : TransactionPrefix) :
    Defined (Option ExtraAttachmentInfo) :=
  let fromExtra := tx.extra.findSome? PayloadItem.asAttachmentInfo?
  if tx.separatelySigned then
    match tx.vin.getLast? with
    | none => .error .indexOutOfRange
    | some last =>
        .ok (((getInputEtcDetails last).bind
          fun details => details.findSome? TxinEtcDetails.asAttachmentInfo?).or fromExtra)
  else .ok fromExtra

/-- The numbers of signatures of the inputs: one more for the last one of a separately signed
transaction. -/
def expectedSignatures (separately : Bool) : List Txin → List Nat
  | [] => []
  | [last] => [getInputExpectedSignaturesCount last + if separately then 1 else 0]
  | input :: rest => getInputExpectedSignaturesCount input :: expectedSignatures separately rest

/-- `sizeof(crypto::signature)`. -/
def sizeofSignature : Nat := 64

def signaturesBlobsize (counts : List Nat) : Nat :=
  (counts.map fun sigCount => getVarintPackedSize sigCount + sizeofSignature * sigCount).sum

/-- The number of bytes that stands for the attachments. -/
def attachmentsBlobsize : Option ExtraAttachmentInfo → Nat
  | some eai => eai.sz
  | none => getVarintPackedSize 0

/-- `get_object_blobsize` with the size of the prefix. -/
def getObjectBlobsizeFrom (t : Transaction) (prefixBlobSize : Nat) : Defined Nat :=
  if t.isCoinbase then .ok prefixBlobSize
  else do
    let eai ← t.attachmentInfo?
    return (prefixBlobSize + getVarintPackedSize t.vin.length +
      signaturesBlobsize (expectedSignatures t.separatelySigned t.vin) +
      attachmentsBlobsize eai) % 2 ^ 64

/-- `get_object_blobsize`. -/
def getObjectBlobsize (t : Transaction) : Defined Nat :=
  getObjectBlobsizeFrom t (tSerializableObjectToBlob transactionPrefix t.toTransactionPrefix).length

/-! ## Lengths -/

theorem write_serializeVector {α : Type} (element : Codec α) (l : List α) :
    (serializeVector element).write l = writeVarint (l.length % 2 ^ 64) ++ l.flatMap element.write := by
  change writeVarint (BitVec.ofNat 64 l.length).toNat ++ element.writeMany l = _
  rw [BitVec.toNat_ofNat]
  rfl

theorem length_write_signature (s : Signature) : (signature.write s).length = sizeofSignature := by
  change (bytesOfNat 64 s.toNat).reverse.length = 64
  rw [List.length_reverse, length_bytesOfNat]

theorem length_flatMap_signature (sigs : List Signature) :
    (sigs.flatMap signature.write).length = sizeofSignature * sigs.length := by
  induction sigs with
  | nil => rfl
  | cons s sigs ih =>
      rw [List.flatMap_cons, List.length_append, length_write_signature, ih, List.length_cons,
        Nat.mul_succ, Nat.add_comm]

/-- The signatures of one input. -/
theorem length_write_signatures {sigs : List Signature}
    (h : ((serializeVector signature).write sigs).length < 2 ^ 56) :
    ((serializeVector signature).write sigs).length =
      getVarintPackedSize sigs.length + sizeofSignature * sigs.length := by
  rw [write_serializeVector, List.length_append, length_flatMap_signature] at h ⊢
  have hshort : sigs.length < 2 ^ 56 := by
    rw [sizeofSignature] at h
    omega
  rw [Nat.mod_eq_of_lt (hshort.trans (by decide)), getVarintPackedSize_eq hshort]

theorem length_write_pos (sigs : List Signature) :
    0 < ((serializeVector signature).write sigs).length := by
  rw [write_serializeVector, List.length_append]
  exact Nat.add_pos_left (length_writeVarint_pos _) _

/-- The signatures of all inputs. -/
theorem length_flatMap_signatures {l : List (List Signature)}
    (h : (l.flatMap (serializeVector signature).write).length < 2 ^ 56) :
    (l.flatMap (serializeVector signature).write).length =
        signaturesBlobsize (l.map List.length) ∧
      l.length ≤ (l.flatMap (serializeVector signature).write).length := by
  induction l with
  | nil => exact ⟨rfl, le_rfl⟩
  | cons sigs l ih =>
      rw [List.flatMap_cons, List.length_append] at h ⊢
      obtain ⟨hsum, hlength⟩ := ih (by omega)
      have hfirst := @length_write_signatures sigs (by omega)
      have hpos := length_write_pos sigs
      constructor
      · rw [hfirst, hsum, signaturesBlobsize, signaturesBlobsize, List.map_cons, List.map_cons,
          List.sum_cons]
      · rw [List.length_cons]
        omega

theorem length_expectedSignatures (separately : Bool) (vin : List Txin) :
    (expectedSignatures separately vin).length = vin.length := by
  induction vin with
  | nil => rfl
  | cons input rest ih =>
      cases rest with
      | nil => rfl
      | cons next rest => exact congrArg (· + 1) ih

/-! ## The prediction -/

/-- Every input has the signatures it asks for. -/
def SignaturesMatch (t : Transaction) : Prop :=
  t.signatures.map List.length = expectedSignatures t.separatelySigned t.vin

/-- The real blob, in three parts. -/
theorem blob_eq (t : Transaction) : tSerializableObjectToBlob transaction t =
    tSerializableObjectToBlob transactionPrefix t.toTransactionPrefix ++
      ((serializeVector (serializeVector signature)).write t.signatures ++
        (serializeVector payloadItemsV).write t.attachment) :=
  rfl

theorem length_signatures {t : Transaction} (h : SignaturesMatch t)
    (hlength : ((serializeVector (serializeVector signature)).write t.signatures).length < 2 ^ 56) :
    ((serializeVector (serializeVector signature)).write t.signatures).length =
      getVarintPackedSize t.vin.length +
        signaturesBlobsize (expectedSignatures t.separatelySigned t.vin) := by
  rw [write_serializeVector, List.length_append] at hlength ⊢
  have hparts : (t.signatures.flatMap (serializeVector signature).write).length < 2 ^ 56 := by omega
  obtain ⟨hsum, hcount⟩ := length_flatMap_signatures hparts
  have hinputs : t.signatures.length = t.vin.length := by
    rw [← length_expectedSignatures t.separatelySigned t.vin, ← h, List.length_map]
  have hshort : t.signatures.length < 2 ^ 56 := lt_of_le_of_lt hcount hparts
  rw [hsum, h, Nat.mod_eq_of_lt (hshort.trans (by decide)), ← getVarintPackedSize_eq hshort, hinputs]

/-- The attachments are as long as the transaction says. -/
def AttachmentsAsStated (t : Transaction) : Prop :=
  ∃ eai, t.attachmentInfo? = .ok eai ∧ attachmentsBlobsize eai % 2 ^ 64 =
    ((serializeVector payloadItemsV).write t.attachment).length

/-- The transaction without its signatures and attachments. -/
def Transaction.pruned (t : Transaction) : Transaction :=
  { t with
    signatures := []
    attachment := [] }

theorem getObjectBlobsize_pruned (t : Transaction) :
    getObjectBlobsize t.pruned = getObjectBlobsize t :=
  rfl

/-- A sum of words is a number below the word size when its last part is. -/
theorem word_sum_eq_iff {base count sigs stated real : Nat}
    (h : base + (count + sigs + real) < 2 ^ 64) :
    (base + count + sigs + stated) % 2 ^ 64 = base + (count + sigs + real) ↔
      stated % 2 ^ 64 = real := by
  omega

/-- The predicted size is the real one, of the transaction and of its pruned form, if and only if
the attachments are as long as the transaction says. -/
theorem getObjectBlobsize_eq_iff (t : Transaction) (hcoinbase : t.isCoinbase = false)
    (hsignatures : SignaturesMatch t)
    (hlength : (tSerializableObjectToBlob transaction t).length < 2 ^ 56) :
    (getObjectBlobsize t = .ok (tSerializableObjectToBlob transaction t).length ↔
        AttachmentsAsStated t) ∧
      getObjectBlobsize t.pruned = getObjectBlobsize t := by
  refine ⟨?_, getObjectBlobsize_pruned t⟩
  rw [blob_eq, List.length_append, List.length_append] at hlength ⊢
  have hsigs := length_signatures hsignatures (by omega)
  rw [hsigs] at hlength ⊢
  unfold getObjectBlobsize getObjectBlobsizeFrom AttachmentsAsStated
  rw [hcoinbase]
  simp only [Bool.false_eq_true, if_false]
  cases t.attachmentInfo? with
  | error e =>
      constructor
      · intro h
        cases h
      · rintro ⟨eai, h, -⟩
        cases h
  | ok eai =>
      generalize (tSerializableObjectToBlob transactionPrefix t.toTransactionPrefix).length = base
        at hlength ⊢
      generalize ((serializeVector payloadItemsV).write t.attachment).length = real at hlength ⊢
      generalize getVarintPackedSize t.vin.length = count at hlength ⊢
      generalize signaturesBlobsize (expectedSignatures t.separatelySigned t.vin) = sigs
        at hlength ⊢
      have hexists : (∃ eai', (.ok eai : Defined (Option ExtraAttachmentInfo)) = .ok eai' ∧
          attachmentsBlobsize eai' % 2 ^ 64 = real) ↔ attachmentsBlobsize eai % 2 ^ 64 = real := by
        constructor
        · rintro ⟨eai', heai, hsize⟩
          cases heai
          exact hsize
        · intro hsize
          exact ⟨eai, rfl, hsize⟩
      rw [hexists]
      change (Except.ok ((base + count + sigs + attachmentsBlobsize eai) % 2 ^ 64) : Defined Nat) =
        .ok (base + (count + sigs + real)) ↔ _
      rw [Except.ok.injEq]
      exact word_sum_eq_iff (by omega)

/-- A transaction with one signed multisig input. -/
def signedTransaction (attachment : List PayloadItem) : Transaction where
  version := sampleTransaction.version
  extra := []
  vin := [.multisig { amount := 5, multisigOutId := 7, sigsCount := 1, etcDetails := [] }]
  vout := []
  signatures := [[0]]
  attachment

theorem getObjectBlobsize_of_signedTransaction :
    (getObjectBlobsize (signedTransaction []) =
        .ok (tSerializableObjectToBlob transaction (signedTransaction [])).length ↔
        AttachmentsAsStated (signedTransaction [])) ∧
      getObjectBlobsize (signedTransaction []).pruned = getObjectBlobsize (signedTransaction []) :=
  getObjectBlobsize_eq_iff _ rfl rfl (by decide +kernel)

/-- With a comment that no info mentions, two bytes are missing. -/
theorem signedTransaction_too_long :
    ¬ ∀ t : Transaction, t.isCoinbase = false → SignaturesMatch t →
      getObjectBlobsize t = .ok (tSerializableObjectToBlob transaction t).length := by
  intro h
  exact absurd (h (signedTransaction [.comment []]) rfl rfl) (by decide +kernel)

end Wire
end Chinet
