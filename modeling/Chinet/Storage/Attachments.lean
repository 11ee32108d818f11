import Chinet.Storage.InputChecks

/-!
# What the id of a transaction says about its attachments

The id of a transaction is the hash of its prefix, and the attachments are not
in the prefix.  They are bound by an `extra_attachment_info`: the length of a
prefix of the list and the hash of that prefix.

`prepare_prefix_hash_for_sign` asks the last input of a separately signed
transaction to have counted every attachment.  Nothing asks that of a normal
transaction, so attachments can be added to it after the ones it has counted.
-/

namespace Chinet

variable {env : Env}

/-- The transaction with other attachments: its id and its signatures stay. -/
def Transaction.withAttachment (tx : Transaction) (attachment : List PayloadItem) : Transaction :=
  { tx with attachment }

/-! ## Attachment info -/

/-- Attachments after the counted ones do not change the verdict. -/
theorem validateAttachmentInfo_append {crypto : CryptoPrimitives} {info : ExtraAttachmentInfo}
    {attachments : List PayloadItem} {allowNoInfo : Bool}
    (h : validateAttachmentInfo crypto (some info) attachments allowNoInfo = true)
    (added : List PayloadItem) :
    validateAttachmentInfo crypto (some info) (attachments ++ added) allowNoInfo = true := by
  simp only [validateAttachmentInfo, Bool.and_eq_true, Bool.not_eq_true',
    List.isEmpty_eq_false_iff, decide_eq_true_eq] at h ⊢
  obtain ⟨⟨hne, hcnt⟩, hinfo⟩ := h
  have htake : (attachments ++ added).take info.cnt = attachments.take info.cnt :=
    List.take_append_of_le_length hcnt
  have hlength : info.cnt ≤ (attachments ++ added).length := by
    rw [List.length_append]
    exact le_trans hcnt (Nat.le_add_right _ _)
  rw [htake]
  exact ⟨⟨List.append_ne_nil_of_left_ne_nil hne added, hlength⟩, hinfo⟩

/-- With an info that has counted every attachment, the list is fixed. -/
theorem attachments_eq_of_info {crypto : CryptoPrimitives} {info : ExtraAttachmentInfo}
    {attachments others : List PayloadItem} {allow allow' : Bool}
    (hblob : ∀ a, crypto.attachmentBlob a = crypto.attachmentBlob attachments → a = attachments)
    (h : validateAttachmentInfo crypto (some info) attachments allow = true)
    (hcnt : info.cnt = attachments.length)
    (h' : validateAttachmentInfo crypto (some info) others allow' = true)
    (hcnt' : info.cnt = others.length) : others = attachments := by
  simp only [validateAttachmentInfo, Bool.and_eq_true, Bool.not_eq_true',
    List.isEmpty_eq_false_iff, decide_eq_true_eq, beq_iff_eq] at h h'
  have hsame : getAttachmentExtraInfoDetails crypto others =
      getAttachmentExtraInfoDetails crypto attachments := by
    calc getAttachmentExtraInfoDetails crypto others
        = getAttachmentExtraInfoDetails crypto (others.take info.cnt) := by
          rw [hcnt', List.take_length]
      _ = info := h'.2.symm
      _ = getAttachmentExtraInfoDetails crypto (attachments.take info.cnt) := h.2
      _ = getAttachmentExtraInfoDetails crypto attachments := by
          rw [hcnt, List.take_length]
  rw [getAttachmentExtraInfoDetails, if_neg h'.1.1, getAttachmentExtraInfoDetails,
    if_neg h.1.1] at hsame
  injection hsame with hsz hhsh _
  exact hblob others (Prod.ext hsz hhsh)

/-- Without an info, and where one is asked for, there are no attachments. -/
theorem attachments_eq_nil_of_no_info {crypto : CryptoPrimitives} {attachments : List PayloadItem}
    (h : validateAttachmentInfo crypto none attachments false = true) : attachments = [] := by
  simp only [validateAttachmentInfo, Bool.false_or, Bool.and_eq_true] at h
  exact List.isEmpty_iff.mp h.1

/-! ## Adding an attachment -/

/-- The inputs whose checks leave the end of the attachments open. -/
def LooseInput (tx : Transaction) (inIndex : Nat) : Prop :=
  isSignatureModeSeparate tx.toTransactionPrefix = true → inIndex + 1 < tx.vin.length

theorem checkInputAttachments_append {tx : Transaction} {inIndex : Nat}
    {etcDetails : List TxinEtcDetails} (hloose : LooseInput tx inIndex)
    (h : checkInputAttachments env tx inIndex etcDetails = .ok ()) (added : List PayloadItem) :
    checkInputAttachments env (tx.withAttachment (tx.attachment ++ added)) inIndex etcDetails =
      .ok () := by
  unfold checkInputAttachments at h ⊢
  cases hmode : isSignatureModeSeparate tx.toTransactionPrefix with
  | false =>
      simp only [hmode, Bool.false_eq_true, if_false] at h
      simpa only [Transaction.withAttachment, hmode, Bool.false_eq_true, if_false] using h
  | true =>
      simp only [hmode, if_true, require_eq_ok] at h
      simp only [Transaction.withAttachment, hmode, if_true, require_eq_ok]
      cases hinfo : etcDetails.findSome? TxinEtcDetails.asAttachmentInfo? with
      | some info =>
          rw [hinfo] at h
          exact validateAttachmentInfo_append h added
      | none =>
          -- only the last input must have an info, and this is not the last one
          have hlast : (inIndex != tx.vin.length - 1) = true := by
            have hlt := hloose hmode
            simp only [bne_iff_ne]
            omega
          rw [validateAttachmentInfo, hlast, Bool.true_or]

theorem preparePrefixHashForSign_append {tx : Transaction} {inIndex : Nat} {txId : Hash}
    (hloose : LooseInput tx inIndex)
    (h : preparePrefixHashForSign env.crypto tx inIndex txId ≠ nullHash)
    (added : List PayloadItem) :
    preparePrefixHashForSign env.crypto (tx.withAttachment (tx.attachment ++ added)) inIndex txId =
      preparePrefixHashForSign env.crypto tx inIndex txId := by
  unfold preparePrefixHashForSign at h ⊢
  dsimp only [Transaction.withAttachment] at h ⊢
  by_cases hin : inIndex ≥ tx.vin.length
  · simp only [hin, if_true]
  by_cases hmode : isSignatureModeSeparate tx.toTransactionPrefix = true
  · have hne : inIndex + 1 ≠ tx.vin.length := Nat.ne_of_lt (hloose hmode)
    simp only [hin, hmode, hne, Bool.not_true, Bool.false_eq_true, if_false] at h ⊢
    split
    · rfl
    · rename_i counts hcounts
      rw [hcounts] at h
      dsimp only at h
      split at h
      · rename_i hle
        have hle' : counts.attachments ≤ (tx.attachment ++ added).length := by
          rw [List.length_append]
          exact le_trans hle.2.2 (Nat.le_add_right _ _)
        simp only [hle.1, hle.2.1, hle.2.2, hle', and_self, if_true]
      · exact absurd rfl h
  · simp only [hin, hmode, Bool.not_false, if_true, if_false]

theorem checkInputSignature_append {tx : Transaction} {inIndex : Nat} {kImage : KeyImage}
    {etcDetails : List TxinEtcDetails} {txPrefixHash : Hash} {sig : List Signature}
    {outputKeys : List PublicKey} (hloose : LooseInput tx inIndex)
    (h : checkInputSignature env false tx inIndex kImage etcDetails txPrefixHash sig outputKeys =
      .ok ()) (added : List PayloadItem) :
    checkInputSignature env false (tx.withAttachment (tx.attachment ++ added)) inIndex kImage
      etcDetails txPrefixHash sig outputKeys = .ok () := by
  unfold checkInputSignature at h ⊢
  simp only [Bool.false_eq_true, if_false, bind_eq_ok, require_eq_ok] at h ⊢
  obtain ⟨_, hattachments, _, hlength, _, hhash, hrest⟩ := h
  have hsame := preparePrefixHashForSign_append hloose (by simpa using hhash) added
  refine ⟨(), checkInputAttachments_append hloose hattachments added, (), hlength, (), ?_, ?_⟩
  · rw [hsame]
    exact hhash
  · rw [hsame]
    exact hrest

theorem checkMsInput_append {db : Db} {now : Nat} {tx : Transaction} {inIndex : Nat}
    {txin : TxinMultisig} {txPrefixHash : Hash} {sourceTx : Transaction} {outN : Nat}
    (hloose : LooseInput tx inIndex)
    (h : checkMsInput env db false now tx inIndex txin txPrefixHash sourceTx outN = .ok ())
    (added : List PayloadItem) :
    checkMsInput env db false now (tx.withAttachment (tx.attachment ++ added)) inIndex txin
      txPrefixHash sourceTx outN = .ok () := by
  unfold checkMsInput at h ⊢
  simp only [bind_eq_ok] at h ⊢
  obtain ⟨unlockTime, hunlock, _, hspendtime, h⟩ := h
  refine ⟨unlockTime, hunlock, (), hspendtime, ?_⟩
  cases hout : sourceTx.vout[outN]? with
  | none =>
      rw [hout] at h
      cases h
  | some out =>
      rw [hout] at h
      obtain ⟨amount, target⟩ := out
      cases target with
      | toKey target => cases h
      | htlc target => cases h
      | multisig target =>
          simp only [Bool.false_eq_true, if_false, bind_eq_ok, require_eq_ok] at h ⊢
          obtain ⟨_, hsigs, _, hamount, _, hattachments, _, hsignatures, _, hlength, _, hhash,
            hrest⟩ := h
          have hsame := preparePrefixHashForSign_append hloose (by simpa using hhash) added
          refine ⟨(), hsigs, (), hamount, (), checkInputAttachments_append hloose hattachments added,
            (), hsignatures, (), hlength, (), ?_, ?_⟩
          · rw [hsame]
            exact hhash
          · rw [hsame]
            exact hrest

section

variable {db : Db} {now : Nat} {tx : Transaction}

/-- The scan of the referenced outputs looks at the prefix only. -/
theorem scanOutputkeysForIndexes_withAttachment (attachment : List PayloadItem) (input : Txin)
    (part : TxinToKey) (height : Nat) :
    scanOutputkeysForIndexes db now (tx.withAttachment attachment) input part height =
      scanOutputkeysForIndexes db now tx input part height := by
  have hscan : ∀ (refs : List TxoutRef) (amount : UInt64) (ringSize : Nat) (acc : ScanResult),
      scanOutputs db now (tx.withAttachment attachment) input amount ringSize refs acc =
        scanOutputs db now tx input amount ringSize refs acc := by
    intro refs amount ringSize
    induction refs with
    | nil => exact fun _ => rfl
    | cons ref rest ih =>
        intro acc
        have hfirst : scanOutput db now (tx.withAttachment attachment) input amount ringSize ref acc =
            scanOutput db now tx input amount ringSize ref acc := rfl
        rw [scanOutputs, scanOutputs, hfirst]
        exact congrArg _ (funext ih)
  unfold scanOutputkeysForIndexes
  simp only [hscan]

theorem checkTxInput_append {txPrefixHash : Hash} {sigIndex height height' : Nat} {input : Txin}
    (hloose : input.isGen = false → LooseInput tx sigIndex)
    (h : checkTxInput env db false now tx txPrefixHash sigIndex height input = .ok height')
    (added : List PayloadItem) :
    checkTxInput env db false now (tx.withAttachment (tx.attachment ++ added)) txPrefixHash sigIndex
      height input = .ok height' := by
  unfold checkTxInput at h ⊢
  rw [require_bind_eq_ok] at h ⊢
  obtain ⟨hsignatures, h⟩ := h
  refine ⟨hsignatures, ?_⟩
  cases input with
  | gen _ => exact h
  | toKey txin =>
      have hlast := hloose rfl
      simp only [bind_eq_ok, require_eq_ok, checkTxInputToKey_eq_ok_iff] at h ⊢
      obtain ⟨_, hoffsets, _, hfresh, scan, ⟨hscan, hlength, hsign⟩, hheight⟩ := h
      refine ⟨(), hoffsets, (), hfresh, scan, ⟨?_, hlength, ?_⟩, hheight⟩
      · rw [scanOutputkeysForIndexes_withAttachment]
        exact hscan
      · exact checkInputSignature_append hlast hsign added
  | multisig txin =>
      have hlast := hloose rfl
      simp only [checkTxInputMultisig_eq_ok_iff] at h ⊢
      obtain ⟨ms, entry, target, hms, hunspent, hentry, htarget, hflag, hcheck, hheight⟩ := h
      exact ⟨ms, entry, target, hms, hunspent, hentry, htarget, hflag,
        checkMsInput_append hlast hcheck added, hheight⟩
  | htlc txin =>
      have hlast := hloose rfl
      simp only [bind_eq_ok, require_eq_ok, checkTxInputHtlc_eq_ok_iff] at h ⊢
      obtain ⟨_, hzone, _, hoffsets, _, hfresh, scan, relatedOut, hscan, hrelated, hhash, hone, hsign,
        hheight⟩ := h
      refine ⟨(), hzone, (), hoffsets, (), hfresh, scan, relatedOut, ?_, hrelated, hhash, hone, ?_,
        hheight⟩
      · rw [scanOutputkeysForIndexes_withAttachment]
        exact hscan
      · exact checkInputSignature_append hlast hsign added

/-- By induction over the inputs: each of them is checked as before. -/
theorem checkTxInputsFrom_append {txPrefixHash : Hash} {inputs : List Txin}
    {sigIndex height height' : Nat}
    (hloose : ∀ (j : Nat) (input : Txin), inputs[j]? = some input → input.isGen = false →
      LooseInput tx (sigIndex + j))
    (h : checkTxInputsFrom env db false now tx txPrefixHash sigIndex height inputs = .ok height')
    (added : List PayloadItem) :
    checkTxInputsFrom env db false now (tx.withAttachment (tx.attachment ++ added)) txPrefixHash
      sigIndex height inputs = .ok height' := by
  induction inputs generalizing sigIndex height with
  | nil => exact h
  | cons input rest ih =>
      rw [checkTxInputsFrom, bind_eq_ok] at h ⊢
      obtain ⟨height₁, hfirst, hrest⟩ := h
      refine ⟨height₁, ?_, ?_⟩
      · exact checkTxInput_append (hloose 0 input rfl) hfirst added
      · apply ih _ hrest
        intro j other hget hgen
        have hnext := hloose (j + 1) other (by simpa using hget) hgen
        rwa [Nat.add_right_comm]

/-! ## What the last input has checked -/

/-- What every input but a generation input has checked outside the checkpoint zone. -/
theorem checkTxInput_attachments {txPrefixHash : Hash} {sigIndex height height' : Nat} {input : Txin}
    (h : checkTxInput env db false now tx txPrefixHash sigIndex height input = .ok height')
    (hgen : input.isGen = false) :
    checkInputAttachments env tx sigIndex input.etcDetails = .ok () ∧
      preparePrefixHashForSign env.crypto tx sigIndex txPrefixHash ≠ nullHash := by
  have hsigned : ∀ {kImage : KeyImage} {etcDetails : List TxinEtcDetails} {sig : List Signature}
      {outputKeys : List PublicKey},
      checkInputSignature env false tx sigIndex kImage etcDetails txPrefixHash sig outputKeys =
        .ok () →
      checkInputAttachments env tx sigIndex etcDetails = .ok () ∧
        preparePrefixHashForSign env.crypto tx sigIndex txPrefixHash ≠ nullHash := by
    intro kImage etcDetails sig outputKeys hsign
    simp only [checkInputSignature, Bool.false_eq_true, if_false, bind_eq_ok, require_eq_ok] at hsign
    obtain ⟨_, hattachments, _, _, _, hhash, _⟩ := hsign
    exact ⟨hattachments, by simpa using hhash⟩
  unfold checkTxInput at h
  rw [require_bind_eq_ok] at h
  replace h := h.2
  cases input with
  | gen _ => cases hgen
  | toKey txin =>
      simp only [bind_eq_ok, checkTxInputToKey_eq_ok_iff] at h
      obtain ⟨_, _, _, _, _, ⟨_, _, hsign⟩, _⟩ := h
      exact hsigned hsign
  | multisig txin =>
      obtain ⟨_, _, _, _, _, _, _, _, hcheck, _⟩ := checkTxInputMultisig_eq_ok_iff.mp h
      simp only [checkMsInput, bind_eq_ok] at hcheck
      obtain ⟨_, _, _, _, hcheck⟩ := hcheck
      split at hcheck
      · cases hcheck
      · simp only [Bool.false_eq_true, if_false, bind_eq_ok, require_eq_ok] at hcheck
        obtain ⟨_, _, _, _, _, hattachments, _, _, _, _, _, hhash, _⟩ := hcheck
        exact ⟨hattachments, by simpa using hhash⟩
      · cases hcheck
  | htlc txin =>
      simp only [bind_eq_ok, checkTxInputHtlc_eq_ok_iff] at h
      obtain ⟨_, _, _, _, _, _, _, _, _, _, _, _, hsign, _⟩ := h
      exact hsigned hsign

theorem checkTxInputsFrom_getElem? {txPrefixHash : Hash} {inputs : List Txin}
    {sigIndex height height' : Nat}
    (h : checkTxInputsFrom env db false now tx txPrefixHash sigIndex height inputs = .ok height')
    {j : Nat} {input : Txin} (hget : inputs[j]? = some input) :
    ∃ before after,
      checkTxInput env db false now tx txPrefixHash (sigIndex + j) before input = .ok after := by
  induction inputs generalizing sigIndex height j with
  | nil => simp at hget
  | cons first rest ih =>
      rw [checkTxInputsFrom, bind_eq_ok] at h
      obtain ⟨height₁, hfirst, hrest⟩ := h
      cases j with
      | zero =>
          cases hget
          exact ⟨height, height₁, hfirst⟩
      | succ j =>
          obtain ⟨before, after, hinput⟩ := ih hrest (by simpa using hget)
          refine ⟨before, after, ?_⟩
          rwa [Nat.add_right_comm] at hinput

end

/-- The count of signed attachments is the one of the last input that has any. -/
theorem signedCountsOf_append_attachments {counts result : SignedCounts} {inputs : List Txin}
    {last : Txin} {info : ExtraAttachmentInfo}
    (hinfo : last.etcDetails.findSome? TxinEtcDetails.asAttachmentInfo? = some info)
    (h : signedCountsOf counts (inputs ++ [last]) = some result) :
    result.attachments = info.cnt := by
  induction inputs generalizing counts with
  | nil =>
      simp only [List.nil_append, signedCountsOf, hinfo] at h
      split at h
      · cases h
      · split at h
        · split at h
          · cases h
            rfl
          · cases h
        · cases h
  | cons first rest ih =>
      rw [List.cons_append, signedCountsOf] at h
      split at h
      · cases h
      · split at h
        · split at h
          · exact ih h
          · split at h
            · exact ih h
            · cases h
        · cases h

/-- The last input of a separately signed transaction has counted every attachment. -/
theorem cnt_eq_of_last {crypto : CryptoPrimitives} {tx : Transaction} {inIndex : Nat} {txId : Hash}
    {last : Txin} {info : ExtraAttachmentInfo}
    (hmode : isSignatureModeSeparate tx.toTransactionPrefix = true)
    (hlast : tx.vin.getLast? = some last) (hindex : inIndex + 1 = tx.vin.length)
    (hinfo : last.etcDetails.findSome? TxinEtcDetails.asAttachmentInfo? = some info)
    (h : preparePrefixHashForSign crypto tx inIndex txId ≠ nullHash) :
    info.cnt = tx.attachment.length := by
  have hvin : tx.vin.take (inIndex + 1) = tx.vin.dropLast ++ [last] := by
    rw [hindex, List.take_length]
    exact (List.dropLast_append_getLast? last hlast).symm
  have hin : ¬inIndex ≥ tx.vin.length := by omega
  unfold preparePrefixHashForSign at h
  simp only [hin, hmode, Bool.not_true, Bool.false_eq_true, if_false, hindex, if_true] at h
  split at h
  · exact absurd rfl h
  · rename_i counts hcounts
    rw [← hindex, hvin] at hcounts
    split at h
    · rename_i hall
      rw [← signedCountsOf_append_attachments hinfo hcounts, hall.2.2]
    · exact absurd rfl h

/-! ## The id and the attachments -/

/-- `check_tx_inputs` passes outside the checkpoint zone. -/
def AcceptsInputs (env : Env) (db : Db) (now : Nat) (tx : Transaction) : Prop :=
  ∃ maxUsed, checkTxInputs env db false now tx (getTransactionHash env.crypto tx) = .ok maxUsed

/-- The transactions to which no attachment can be added: separately signed
ones, and normal ones without attachments. -/
def AttachmentsBound (tx : Transaction) : Prop :=
  if isSignatureModeSeparate tx.toTransactionPrefix = true then
    ∃ last, tx.vin.getLast? = some last ∧ last.isGen = false
  else tx.attachment = []

theorem AcceptsInputs.last {db : Db} {now : Nat} {tx : Transaction}
    (h : AcceptsInputs env db now tx)
    (hmode : isSignatureModeSeparate tx.toTransactionPrefix = true) {last : Txin}
    (hlast : tx.vin.getLast? = some last) (hgen : last.isGen = false) :
    let info := last.etcDetails.findSome? TxinEtcDetails.asAttachmentInfo?
    validateAttachmentInfo env.crypto info tx.attachment false = true ∧
      ∀ i, info = some i → i.cnt = tx.attachment.length := by
  obtain ⟨maxUsed, h⟩ := h
  unfold checkTxInputs at h
  rw [bind_eq_ok] at h
  obtain ⟨_, hinputs, _⟩ := h
  have hpos : 0 < tx.vin.length := by
    cases hvin : tx.vin with
    | nil => simp [hvin] at hlast
    | cons first rest => simp
  have hget : tx.vin[tx.vin.length - 1]? = some last := by
    rw [← List.getLast?_eq_getElem?]
    exact hlast
  obtain ⟨_, _, hinput⟩ := checkTxInputsFrom_getElem? hinputs hget
  obtain ⟨hattachments, hhash⟩ := checkTxInput_attachments hinput hgen
  rw [Nat.zero_add] at hattachments hhash
  have hindex : tx.vin.length - 1 + 1 = tx.vin.length := Nat.sub_add_cancel hpos
  refine ⟨?_, fun i hi => cnt_eq_of_last hmode hlast hindex hi hhash⟩
  rw [checkInputAttachments, if_pos hmode, require_eq_ok, bne_self_eq_false] at hattachments
  exact hattachments

/-- One more attachment at the end, when nothing closes the list. -/
theorem AcceptsInputs.append {db : Db} {now : Nat} {tx : Transaction}
    (h : AcceptsInputs env db now tx) (hopen : ¬AttachmentsBound tx) (added : List PayloadItem) :
    AcceptsInputs env db now (tx.withAttachment (tx.attachment ++ added)) := by
  obtain ⟨maxUsed, h⟩ := h
  refine ⟨maxUsed, ?_⟩
  have hloose : ∀ (j : Nat) (input : Txin), tx.vin[j]? = some input → input.isGen = false →
      LooseInput tx (0 + j) := by
    intro j input hget hgen hmode
    obtain ⟨hlt, hinput⟩ := List.getElem?_eq_some_iff.mp hget
    rw [AttachmentsBound, if_pos hmode] at hopen
    -- the last input is a generation input here
    have hne : j ≠ tx.vin.length - 1 := by
      intro hj
      apply hopen
      refine ⟨input, ?_, hgen⟩
      rw [List.getLast?_eq_getElem?, ← hj]
      exact hget
    omega
  unfold checkTxInputs at h ⊢
  simp only [bind_eq_ok, Bool.false_eq_true, if_false] at h ⊢
  obtain ⟨maxUsed', hinputs, _, hsignatures, _, hinfo, hresult⟩ := h
  refine ⟨maxUsed', checkTxInputsFrom_append hloose hinputs added, (), hsignatures, (), ?_, hresult⟩
  rw [require_eq_ok, Bool.or_eq_true] at hinfo ⊢
  by_cases hmode : isSignatureModeSeparate tx.toTransactionPrefix = true
  · exact Or.inl hmode
  · right
    replace hinfo := hinfo.resolve_left hmode
    rw [AttachmentsBound, if_neg hmode] at hopen
    dsimp only [Transaction.withAttachment]
    cases heai : tx.extra.findSome? PayloadItem.asAttachmentInfo? with
    | none =>
        rw [heai] at hinfo
        exact absurd (attachments_eq_nil_of_no_info hinfo) hopen
    | some info =>
        rw [heai] at hinfo
        exact validateAttachmentInfo_append hinfo added

/-- What a normal transaction says in its extra about its attachments. -/
theorem AcceptsInputs.extra {db : Db} {now : Nat} {tx : Transaction}
    (h : AcceptsInputs env db now tx)
    (hmode : ¬isSignatureModeSeparate tx.toTransactionPrefix = true) :
    validateAttachmentInfo env.crypto (tx.extra.findSome? PayloadItem.asAttachmentInfo?)
      tx.attachment false = true := by
  obtain ⟨maxUsed, h⟩ := h
  simp only [checkTxInputs, bind_eq_ok, Bool.false_eq_true, if_false, require_eq_ok] at h
  obtain ⟨_, _, _, _, _, hinfo, _⟩ := h
  rw [Bool.or_eq_true] at hinfo
  exact hinfo.resolve_left hmode

/-- A transaction id fixes the attachments exactly when
something closes their list. -/
theorem attachments_fixed_iff {db : Db} {now : Nat} {tx : Transaction}
    (hhashes : ∀ p, env.crypto.prefixHash p = env.crypto.prefixHash tx.toTransactionPrefix →
      p = tx.toTransactionPrefix)
    (hblob : ∀ a, env.crypto.attachmentBlob a = env.crypto.attachmentBlob tx.attachment →
      a = tx.attachment)
    (haccepts : AcceptsInputs env db now tx) :
    (∀ (db' : Db) (now' : Nat) (tx' : Transaction),
      getTransactionHash env.crypto tx' = getTransactionHash env.crypto tx →
      AcceptsInputs env db' now' tx' → tx'.attachment = tx.attachment) ↔ AttachmentsBound tx := by
  constructor
  · intro hfixed
    by_contra hopen
    have hsame := hfixed db now (tx.withAttachment (tx.attachment ++ [.userData []])) rfl
      (haccepts.append hopen [.userData []])
    simp [Transaction.withAttachment] at hsame
  · intro hbound db' now' tx' hhash haccepts'
    have hsame : tx'.toTransactionPrefix = tx.toTransactionPrefix := hhashes _ hhash
    by_cases hmode : isSignatureModeSeparate tx.toTransactionPrefix = true
    · rw [AttachmentsBound, if_pos hmode] at hbound
      obtain ⟨last, hlast, hgen⟩ := hbound
      have hchecked := haccepts.last hmode hlast hgen
      have hchecked' := haccepts'.last (by rw [hsame]; exact hmode) (by rw [hsame]; exact hlast) hgen
      dsimp only at hchecked hchecked'
      cases hinfo : last.etcDetails.findSome? TxinEtcDetails.asAttachmentInfo? with
      | none =>
          rw [hinfo] at hchecked hchecked'
          rw [attachments_eq_nil_of_no_info hchecked.1, attachments_eq_nil_of_no_info hchecked'.1]
      | some info =>
          rw [hinfo] at hchecked hchecked'
          exact attachments_eq_of_info hblob hchecked.1 (hchecked.2 info rfl) hchecked'.1
            (hchecked'.2 info rfl)
    · rw [AttachmentsBound, if_neg hmode] at hbound
      have hchecked := haccepts.extra hmode
      have hchecked' := haccepts'.extra (by rw [hsame]; exact hmode)
      rw [hsame] at hchecked'
      cases hinfo : tx.extra.findSome? PayloadItem.asAttachmentInfo? with
      | none =>
          rw [hinfo] at hchecked'
          rw [attachments_eq_nil_of_no_info hchecked', hbound]
      | some info => simp [hinfo, hbound, validateAttachmentInfo] at hchecked

/-! ## A transaction whose attachments are open

A multisig output of one key, and a transaction that spends it. -/

def attachmentsSourceTx : Transaction where
  version := currentTransactionVersion
  extra := [.publicKey 1]
  vin := []
  vout := [sampleMultisigOut 10]
  signatures := []
  attachment := []

def attachmentsDb : Db :=
  { Db.empty with
    transactions := (∅ : FiniteStore Hash TransactionChainEntry).insert 1
      { tx := attachmentsSourceTx, keeperBlockHeight := 0, globalOutputIndexes := []
        spentFlags := [false] }
    multisigOuts := (∅ : FiniteStore Hash MsOutputEntry).insert 5
      { txId := 1, outNo := 0, spentHeight := 0 } }

/-- A spend of the multisig output with the attachments `attachment`; its
extra counts the first of them. -/
def attachmentsTx (attachment : List PayloadItem) : Transaction where
  version := currentTransactionVersion
  extra := [.publicKey 2, .attachmentInfo { sz := 1, hsh := 1, cnt := 1 }]
  vin := [.multisig { amount := 10, multisigOutId := 5, sigsCount := 1, etcDetails := [] }]
  vout := []
  signatures := [[1]]
  attachment

/-- Hashes that tell the sample from everything else. -/
def attachmentsCrypto : CryptoPrimitives :=
  { sampleCrypto with
    prefixHash := fun p => if p = (attachmentsTx []).toTransactionPrefix then 1 else 0
    attachmentBlob := fun a =>
      (a.length, if a = [.userData [1]] then 1 else if a = [.userData [1], .userData [2]] then 2
        else 0) }

def attachmentsEnv : Env := { sampleEnv with crypto := attachmentsCrypto }

theorem attachmentsCrypto_prefixHash (attachment : List PayloadItem) (p : TransactionPrefix)
    (h : attachmentsCrypto.prefixHash p =
      attachmentsCrypto.prefixHash (attachmentsTx attachment).toTransactionPrefix) :
    p = (attachmentsTx attachment).toTransactionPrefix := by
  by_contra hne
  have hzero : attachmentsCrypto.prefixHash p = 0 := if_neg hne
  have hsame : (attachmentsTx attachment).toTransactionPrefix =
      (attachmentsTx []).toTransactionPrefix := rfl
  have hone : attachmentsCrypto.prefixHash (attachmentsTx attachment).toTransactionPrefix = 1 := by
    simp only [attachmentsCrypto, hsame, if_true]
  rw [hzero, hone] at h
  exact absurd h (by decide)

theorem attachmentsCrypto_blob_one (a : List PayloadItem)
    (h : attachmentsCrypto.attachmentBlob a = attachmentsCrypto.attachmentBlob [.userData [1]]) :
    a = [.userData [1]] := by
  by_contra hne
  have hhash := congrArg Prod.snd h
  simp only [attachmentsCrypto, hne, if_false, if_true] at hhash
  split at hhash <;> exact absurd hhash (by decide)

theorem attachmentsCrypto_blob_two (a : List PayloadItem)
    (h : attachmentsCrypto.attachmentBlob a =
      attachmentsCrypto.attachmentBlob [.userData [1], .userData [2]]) :
    a = [.userData [1], .userData [2]] := by
  by_contra hne
  have hhash : (if a = [.userData [1]] then (1 : Hash) else if a = [.userData [1], .userData [2]]
      then 2 else 0) = 2 := congrArg Prod.snd h
  rw [if_neg hne] at hhash
  split at hhash <;> exact absurd hhash (by decide)

theorem attachmentsTx_accepted_one :
    AcceptsInputs attachmentsEnv attachmentsDb 0 (attachmentsTx [.userData [1]]) :=
  ⟨0, rfl⟩

theorem attachmentsTx_accepted_two :
    AcceptsInputs attachmentsEnv attachmentsDb 0 (attachmentsTx [.userData [1], .userData [2]]) :=
  ⟨0, rfl⟩

theorem attachments_fixed_sample :
    (∀ (db' : Db) (now' : Nat) (tx' : Transaction),
      getTransactionHash attachmentsEnv.crypto tx' =
        getTransactionHash attachmentsEnv.crypto (attachmentsTx [.userData [1]]) →
      AcceptsInputs attachmentsEnv db' now' tx' → tx'.attachment = [.userData [1]]) ↔
        AttachmentsBound (attachmentsTx [.userData [1]]) :=
  attachments_fixed_iff (attachmentsCrypto_prefixHash _) attachmentsCrypto_blob_one
    attachmentsTx_accepted_one

/-- Two accepted transactions with one id: the second has an attachment that
the first has not. -/
theorem attachments_added :
    ∃ (env : Env) (db : Db) (now : Nat) (tx tx' : Transaction),
      (∀ p, env.crypto.prefixHash p = env.crypto.prefixHash tx.toTransactionPrefix →
        p = tx.toTransactionPrefix) ∧
      (∀ a, env.crypto.attachmentBlob a = env.crypto.attachmentBlob tx.attachment →
        a = tx.attachment) ∧
      (∀ a, env.crypto.attachmentBlob a = env.crypto.attachmentBlob tx'.attachment →
        a = tx'.attachment) ∧
      getTransactionHash env.crypto tx' = getTransactionHash env.crypto tx ∧
      AcceptsInputs env db now tx ∧ AcceptsInputs env db now tx' ∧
      tx'.attachment ≠ tx.attachment :=
  ⟨attachmentsEnv, attachmentsDb, 0, attachmentsTx [.userData [1]],
    attachmentsTx [.userData [1], .userData [2]], attachmentsCrypto_prefixHash _,
    attachmentsCrypto_blob_one, attachmentsCrypto_blob_two, rfl, attachmentsTx_accepted_one,
    attachmentsTx_accepted_two, by simp [attachmentsTx]⟩

end Chinet
