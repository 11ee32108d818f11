import Chinet.Storage.Chain

/-!
# Separately signed inputs

`prepare_prefix_hash_for_sign` hashes a copy of the transaction that is cropped to what an input
refers to: the inputs up to it, and as many outputs and extra entries as its `signed_parts` say.
For the last input nothing is cropped.  `signedContent` is the prefix that is hashed.

What others append does not change it, with one exception: the number of signed attachments, which
is not part of the content but is checked, starts from the first `extra_attachment_info` of the
extra.  One that is appended counts for the inputs before it too (`StillCounted`).

The last input hashes the whole prefix, so its content only stays when more inputs follow and
everything else is appended as well: then it is an input like the others.
-/

namespace Chinet

/-- The number of signed attachments that `extra` sets for every input. -/
def defaultAttachments (tx : TransactionPrefix) : Nat :=
  ((tx.extra.findSome? PayloadItem.asAttachmentInfo?).map ExtraAttachmentInfo.cnt).getD 0

/-- The prefix without what the given counts leave out. -/
def TransactionPrefix.crop (tx : TransactionPrefix) (inIndex : Nat) (counts : SignedCounts) :
    TransactionPrefix where
  version := tx.version
  extra := tx.extra.take counts.extras
  vin := tx.vin.take (inIndex + 1)
  vout := tx.vout.take counts.outs

/-- What `prepare_prefix_hash_for_sign` hashes, where its argument is the hash of the prefix. -/
def signedContent (tx : Transaction) (inIndex : Nat) : Option TransactionPrefix :=
  if inIndex ≥ tx.vin.length then none
  else if !isSignatureModeSeparate tx.toTransactionPrefix then some tx.toTransactionPrefix
  else
    match signedCountsOf ⟨0, 0, defaultAttachments tx.toTransactionPrefix⟩
      (tx.vin.take (inIndex + 1)) with
    | none => none
    | some counts =>
        if inIndex + 1 = tx.vin.length then
          if counts.outs = tx.vout.length ∧ counts.extras = tx.extra.length ∧
              counts.attachments = tx.attachment.length then some tx.toTransactionPrefix
          else none
        else if counts.outs ≤ tx.vout.length ∧ counts.extras ≤ tx.extra.length ∧
            counts.attachments ≤ tx.attachment.length then
          some (tx.toTransactionPrefix.crop inIndex counts)
        else none

theorem preparePrefixHashForSign_eq (crypto : CryptoPrimitives) (tx : Transaction) (inIndex : Nat) :
    preparePrefixHashForSign crypto tx inIndex (getTransactionHash crypto tx) =
      ((signedContent tx inIndex).map crypto.prefixHash).getD nullHash := by
  unfold preparePrefixHashForSign signedContent
  by_cases hin : inIndex ≥ tx.vin.length
  · rw [if_pos hin, if_pos hin]
    rfl
  rw [if_neg hin, if_neg hin]
  cases hmode : isSignatureModeSeparate tx.toTransactionPrefix with
  | false => rfl
  | true =>
      simp only [Bool.not_true, Bool.false_eq_true, if_false]
      change (match signedCountsOf ⟨0, 0, defaultAttachments tx.toTransactionPrefix⟩
        (tx.vin.take (inIndex + 1)) with | none => nullHash | some counts => _) = _
      cases signedCountsOf ⟨0, 0, defaultAttachments tx.toTransactionPrefix⟩
        (tx.vin.take (inIndex + 1)) with
      | none => rfl
      | some counts =>
          dsimp only
          split
          · split <;> rfl
          · split <;> rfl

/-! ## Appending -/

/-- Inputs, outputs and extra entries were appended. -/
structure TransactionPrefix.Grows (tx tx' : TransactionPrefix) : Prop where
  version : tx'.version = tx.version
  vin : tx.vin <+: tx'.vin
  vout : tx.vout <+: tx'.vout
  extra : tx.extra <+: tx'.extra

theorem take_of_grown {α : Type} {l l' : List α} {n : Nat} (h : l <+: l') (hn : n ≤ l.length) :
    l'.take n = l.take n := by
  obtain ⟨added, rfl⟩ := h
  exact List.take_append_of_le_length hn

theorem length_of_grown {α : Type} {l l' : List α} {n : Nat} (h : l <+: l') (hn : n ≤ l.length) :
    n ≤ l'.length :=
  hn.trans h.length_le

/-- The flags are those of the first entry with flags. -/
theorem TransactionPrefix.Grows.separate {tx tx' : TransactionPrefix} (h : tx.Grows tx')
    (hmode : isSignatureModeSeparate tx = true) : isSignatureModeSeparate tx' = true := by
  obtain ⟨added, hadded⟩ := h.extra
  rw [isSignatureModeSeparate, getTxFlags] at hmode ⊢
  rw [← hadded, List.findSome?_append]
  cases hflags : tx.extra.findSome? PayloadItem.asDetailsFlags? with
  | none =>
      rw [hflags] at hmode
      cases hmode
  | some flags =>
      rw [hflags] at hmode
      exact hmode

/-- The first of the inputs that counts its attachments itself. -/
def firstOwnCount (inputs : List Txin) : Option Nat :=
  (inputs.findSome? fun input => input.etcDetails.findSome? TxinEtcDetails.asAttachmentInfo?).map
    ExtraAttachmentInfo.cnt

/-- The number that the counting starts from is forgotten at the first input with its own. -/
theorem signedCountsOf_default {outs extras attachments : Nat} {inputs : List Txin}
    {counts : SignedCounts} (h : signedCountsOf ⟨outs, extras, attachments⟩ inputs = some counts)
    (attachments' : Nat) :
    signedCountsOf ⟨outs, extras, attachments'⟩ inputs =
      match firstOwnCount inputs with
      | none => some { counts with attachments := attachments' }
      | some cnt => if attachments' ≤ cnt then some counts else none := by
  induction inputs generalizing outs extras attachments with
  | nil =>
      cases h
      rfl
  | cons input rest ih =>
      rw [signedCountsOf] at h ⊢
      cases hparts : input.etcDetails.findSome? TxinEtcDetails.asSignedParts? with
      | none =>
          rw [hparts] at h
          cases h
      | some parts =>
          obtain ⟨nOuts, nExtras⟩ := parts
          rw [hparts] at h
          dsimp only at h ⊢
          split at h
          · rename_i hle
            rw [if_pos hle]
            cases hinfo : input.etcDetails.findSome? TxinEtcDetails.asAttachmentInfo? with
            | none =>
                rw [hinfo] at h
                dsimp only at h ⊢
                have hfirst : firstOwnCount (input :: rest) = firstOwnCount rest := by
                  rw [firstOwnCount, List.findSome?_cons, hinfo, firstOwnCount]
                rw [hfirst]
                exact ih h
            | some info =>
                rw [hinfo] at h
                dsimp only at h ⊢
                have hfirst : firstOwnCount (input :: rest) = some info.cnt := by
                  rw [firstOwnCount, List.findSome?_cons, hinfo]
                  rfl
                rw [hfirst]
                dsimp only
                split at h
                · rw [h]
                · cases h
          · cases h

/-- Where a hash is returned, the content is the cropped prefix, for the last input too. -/
theorem signedContent_crop {tx : Transaction} {inIndex : Nat} {content : TransactionPrefix}
    (hmode : isSignatureModeSeparate tx.toTransactionPrefix = true)
    (h : signedContent tx inIndex = some content) :
    ∃ counts, signedCountsOf ⟨0, 0, defaultAttachments tx.toTransactionPrefix⟩
        (tx.vin.take (inIndex + 1)) = some counts ∧
      inIndex + 1 ≤ tx.vin.length ∧ counts.outs ≤ tx.vout.length ∧
      counts.extras ≤ tx.extra.length ∧ counts.attachments ≤ tx.attachment.length ∧
      content = tx.toTransactionPrefix.crop inIndex counts := by
  unfold signedContent at h
  by_cases hin : inIndex ≥ tx.vin.length
  · rw [if_pos hin] at h
    cases h
  rw [if_neg hin, hmode] at h
  simp only [Bool.not_true, Bool.false_eq_true, if_false] at h
  cases hcounts : signedCountsOf ⟨0, 0, defaultAttachments tx.toTransactionPrefix⟩
      (tx.vin.take (inIndex + 1)) with
  | none =>
      rw [hcounts] at h
      cases h
  | some counts =>
      rw [hcounts] at h
      dsimp only at h
      refine ⟨counts, rfl, by omega, ?_⟩
      split at h
      · rename_i hlast
        split at h
        · rename_i hall
          obtain ⟨houts, hextras, hattachments⟩ := hall
          cases h
          refine ⟨houts.le, hextras.le, hattachments.le, ?_⟩
          -- the counts of a complete transaction crop nothing
          rw [TransactionPrefix.crop, houts, hextras, hlast, List.take_length, List.take_length,
            List.take_length]
        · cases h
      · split at h
        · rename_i hall
          cases h
          exact ⟨hall.1, hall.2.1, hall.2.2, rfl⟩
        · cases h

/-- The number of attachments that the extra sets now is none too many for the input: for the first
one that counts its attachments itself, or for the transaction. -/
def StillCounted (tx : Transaction) (inIndex : Nat) : Prop :=
  match firstOwnCount (tx.vin.take (inIndex + 1)) with
  | some cnt => defaultAttachments tx.toTransactionPrefix ≤ cnt
  | none => defaultAttachments tx.toTransactionPrefix ≤ tx.attachment.length

section

variable {tx tx' : Transaction} {inIndex : Nat} {content : TransactionPrefix}

theorem signedContent_grown (hmode : isSignatureModeSeparate tx.toTransactionPrefix = true)
    (h : signedContent tx inIndex = some content)
    (hgrows : tx.toTransactionPrefix.Grows tx'.toTransactionPrefix)
    (hattachment : tx.attachment <+: tx'.attachment) (hlast : inIndex + 1 < tx'.vin.length) :
    (StillCounted tx' inIndex → signedContent tx' inIndex = some content) ∧
      (¬ StillCounted tx' inIndex → signedContent tx' inIndex = none) := by
  obtain ⟨counts, hcounts, hin, houts, hextras, hattachments, rfl⟩ := signedContent_crop hmode h
  have hmode' := hgrows.separate hmode
  have hin' : ¬ inIndex ≥ tx'.vin.length := by omega
  have htake := take_of_grown hgrows.vin hin
  have houts' := length_of_grown hgrows.vout houts
  have hextras' := length_of_grown hgrows.extra hextras
  have hattachments' := length_of_grown hattachment hattachments
  have hcrop : ∀ n, tx'.toTransactionPrefix.crop inIndex { counts with attachments := n } =
      tx.toTransactionPrefix.crop inIndex counts := by
    intro n
    rw [TransactionPrefix.crop, TransactionPrefix.crop, hgrows.version, htake,
      take_of_grown hgrows.vout houts, take_of_grown hgrows.extra hextras]
  have hnew := signedCountsOf_default hcounts (defaultAttachments tx'.toTransactionPrefix)
  unfold signedContent StillCounted
  rw [if_neg hin', hmode', htake, hnew]
  simp only [Bool.not_true, Bool.false_eq_true, if_false, if_neg (Nat.ne_of_lt hlast)]
  cases firstOwnCount (tx.vin.take (inIndex + 1)) with
  | none =>
      dsimp only
      constructor
      · intro hcounted
        rw [if_pos ⟨houts', hextras', hcounted⟩, hcrop]
      · intro hcounted
        rw [if_neg fun hall => hcounted hall.2.2]
  | some cnt =>
      dsimp only
      constructor
      · intro hcounted
        rw [if_pos hcounted]
        dsimp only
        rw [if_pos ⟨houts', hextras', hattachments'⟩]
        exact congrArg some (hcrop counts.attachments)
      · intro hcounted
        rw [if_neg hcounted]

/-- It is so where the appended extra entries set no other number. -/
theorem stillCounted_of_default (hmode : isSignatureModeSeparate tx.toTransactionPrefix = true)
    (h : signedContent tx inIndex = some content)
    (hgrows : tx.toTransactionPrefix.Grows tx'.toTransactionPrefix)
    (hattachment : tx.attachment <+: tx'.attachment)
    (hdefault : defaultAttachments tx'.toTransactionPrefix =
      defaultAttachments tx.toTransactionPrefix) : StillCounted tx' inIndex := by
  obtain ⟨counts, hcounts, hin, -, -, hattachments, -⟩ := signedContent_crop hmode h
  have hsame := signedCountsOf_default hcounts (defaultAttachments tx.toTransactionPrefix)
  rw [hcounts] at hsame
  unfold StillCounted
  rw [take_of_grown hgrows.vin hin, hdefault]
  cases hown : firstOwnCount (tx.vin.take (inIndex + 1)) with
  | none =>
      rw [hown] at hsame
      have hcount := congrArg SignedCounts.attachments (Option.some.inj hsame)
      dsimp only at hcount ⊢
      calc defaultAttachments tx.toTransactionPrefix = counts.attachments := hcount.symm
        _ ≤ tx.attachment.length := hattachments
        _ ≤ tx'.attachment.length := hattachment.length_le
  | some cnt =>
      rw [hown] at hsame
      dsimp only at hsame ⊢
      split at hsame
      · assumption
      · cases hsame

/-- The content of the last input stays only where at least one more input follows, and nothing but
appending was done. -/
theorem grows_of_signedContent_eq (hcontent : signedContent tx' inIndex = some tx.toTransactionPrefix)
    (hlast : inIndex + 1 = tx.vin.length) :
    tx'.toTransactionPrefix = tx.toTransactionPrefix ∨
      (tx.toTransactionPrefix.Grows tx'.toTransactionPrefix ∧ tx.vin.length < tx'.vin.length) := by
  cases hmode : isSignatureModeSeparate tx'.toTransactionPrefix with
  | false =>
      left
      unfold signedContent at hcontent
      rw [hmode] at hcontent
      split at hcontent
      · cases hcontent
      · simpa using hcontent
  | true =>
      obtain ⟨counts, -, hin, -, -, -, hcrop⟩ := signedContent_crop hmode hcontent
      have hgrows : tx.toTransactionPrefix.Grows tx'.toTransactionPrefix := by
        rw [hcrop]
        exact ⟨rfl, List.take_prefix _ _, List.take_prefix _ _, List.take_prefix _ _⟩
      rcases hin.lt_or_eq with hlt | heq
      · right
        exact ⟨hgrows, by omega⟩
      · left
        unfold signedContent at hcontent
        rw [if_neg (by omega), hmode] at hcontent
        simp only [Bool.not_true, Bool.false_eq_true, if_false, if_pos heq] at hcontent
        split at hcontent
        · cases hcontent
        · split at hcontent
          · exact Option.some.inj hcontent
          · cases hcontent

theorem signedContent_of_hash {crypto : CryptoPrimitives}
    (h : preparePrefixHashForSign crypto tx inIndex (getTransactionHash crypto tx) ≠ nullHash) :
    ∃ content, signedContent tx inIndex = some content ∧ crypto.prefixHash content ≠ nullHash := by
  rw [preparePrefixHashForSign_eq] at h
  cases hcontent : signedContent tx inIndex with
  | none =>
      rw [hcontent] at h
      exact absurd rfl h
  | some content =>
      rw [hcontent] at h
      exact ⟨content, rfl, h⟩

end

/-- What an input has signed stays signed while others append, as long as the attachments it counts
are there; the last input has signed the whole prefix, and that it is the last. -/
theorem separately_signed (crypto : CryptoPrimitives) (tx : Transaction) (inIndex : Nat)
    (hmode : isSignatureModeSeparate tx.toTransactionPrefix = true)
    (hhash : preparePrefixHashForSign crypto tx inIndex (getTransactionHash crypto tx) ≠ nullHash) :
    (∀ tx' : Transaction, tx.toTransactionPrefix.Grows tx'.toTransactionPrefix →
      tx.attachment <+: tx'.attachment → inIndex + 1 < tx'.vin.length →
        (preparePrefixHashForSign crypto tx' inIndex (getTransactionHash crypto tx') =
          preparePrefixHashForSign crypto tx inIndex (getTransactionHash crypto tx) ↔
            StillCounted tx' inIndex) ∧
        (defaultAttachments tx'.toTransactionPrefix = defaultAttachments tx.toTransactionPrefix →
          StillCounted tx' inIndex)) ∧
    (inIndex + 1 = tx.vin.length → ∀ tx' : Transaction,
      signedContent tx' inIndex = signedContent tx inIndex →
        tx'.toTransactionPrefix = tx.toTransactionPrefix ∨
          (tx.toTransactionPrefix.Grows tx'.toTransactionPrefix ∧
            tx.vin.length < tx'.vin.length)) := by
  obtain ⟨content, hcontent, hnonnull⟩ := signedContent_of_hash hhash
  constructor
  · intro tx' hgrows hattachment hlast
    obtain ⟨hcounted, hrefused⟩ := signedContent_grown hmode hcontent hgrows hattachment hlast
    refine ⟨?_, stillCounted_of_default hmode hcontent hgrows hattachment⟩
    rw [preparePrefixHashForSign_eq, preparePrefixHashForSign_eq, hcontent]
    constructor
    · intro hsame
      by_contra hnot
      rw [hrefused hnot] at hsame
      exact hnonnull hsame.symm
    · intro hstill
      rw [hcounted hstill]
  · intro hlast tx' hsame
    obtain ⟨counts, -, -, -, -, -, hcrop⟩ := signedContent_crop hmode hcontent
    have hwhole : signedContent tx inIndex = some tx.toTransactionPrefix := by
      unfold signedContent at hcontent ⊢
      rw [if_neg (by omega), hmode] at hcontent ⊢
      simp only [Bool.not_true, Bool.false_eq_true, if_false, if_pos hlast] at hcontent ⊢
      split at hcontent
      · cases hcontent
      · split at hcontent
        · rename_i hall
          rw [if_pos hall]
        · cases hcontent
    rw [hwhole] at hsame
    exact grows_of_signedContent_eq hsame hlast

/-- An input of a separately signed transaction. -/
def separateInput (nOuts nExtras : Nat) : Txin :=
  .multisig { amount := 5, multisigOutId := 7, sigsCount := 1, etcDetails := [.signedParts nOuts nExtras] }

def separateTx : Transaction where
  version := currentTransactionVersion
  extra := [.publicKey 5, .detailsFlags txFlagSignatureModeSeparate]
  vin := [separateInput 1 2, separateInput 1 2]
  vout := [sampleKeyOut 5]
  signatures := []
  attachment := []

/-- One more input, and an entry for an attachment that is not there. -/
def separateTxWithInfo : Transaction :=
  { separateTx with
    extra := separateTx.extra ++ [.attachmentInfo { sz := 1, hsh := 1, cnt := 1 }]
    vin := separateTx.vin ++ [separateInput 1 3] }

/-- One more input only. -/
def separateTxWithInput : Transaction :=
  { separateTx with vin := separateTx.vin ++ [separateInput 1 2] }

theorem separately_signed_sample :
    preparePrefixHashForSign sampleCrypto separateTxWithInput 0
        (getTransactionHash sampleCrypto separateTxWithInput) =
      preparePrefixHashForSign sampleCrypto separateTx 0
        (getTransactionHash sampleCrypto separateTx) := by
  have h := (separately_signed sampleCrypto separateTx 0 (by decide) (by decide)).1
    separateTxWithInput ⟨rfl, List.prefix_append _ _, List.prefix_rfl, List.prefix_rfl⟩
    List.prefix_rfl (by decide)
  exact h.1.mpr (h.2 rfl)

/-- With the entry the first input's hash is null, and with one more input the last one of before
signs what it has signed. -/
theorem separateTx_not_stable :
    (¬ ∀ (crypto : CryptoPrimitives) (tx tx' : Transaction) (inIndex : Nat),
      isSignatureModeSeparate tx.toTransactionPrefix = true →
      preparePrefixHashForSign crypto tx inIndex (getTransactionHash crypto tx) ≠ nullHash →
      inIndex + 1 < tx.vin.length → tx.toTransactionPrefix.Grows tx'.toTransactionPrefix →
      tx'.attachment = tx.attachment →
        preparePrefixHashForSign crypto tx' inIndex (getTransactionHash crypto tx') =
          preparePrefixHashForSign crypto tx inIndex (getTransactionHash crypto tx)) ∧
    ¬ ∀ (tx tx' : Transaction) (inIndex : Nat),
      isSignatureModeSeparate tx.toTransactionPrefix = true → inIndex + 1 = tx.vin.length →
      signedContent tx inIndex = some tx.toTransactionPrefix →
      tx'.toTransactionPrefix ≠ tx.toTransactionPrefix →
        signedContent tx' inIndex ≠ signedContent tx inIndex := by
  constructor
  · intro h
    have hsame := h sampleCrypto separateTx separateTxWithInfo 0 (by decide) (by decide) (by decide)
      ⟨rfl, List.prefix_append _ _, List.prefix_rfl, List.prefix_append _ _⟩ rfl
    exact absurd hsame (by decide)
  · intro h
    exact h separateTx separateTxWithInput 1 (by decide) rfl (by decide) (by decide) (by decide)

end Chinet
