import Chinet.Account.AddressText

/-!
# Addresses with a payment id

`get_account_address_and_payment_id_as_str` and `get_account_address_and_payment_id_from_str`.
A text has a prefix and a blob: the keys, the flags unless they are zero, and the payment id.
The size of the blob is checked before the prefix is known, so two prefixes can cut behind the
end of their blob, and the flags that are read are not compared with the prefix.
-/

namespace Chinet

/-- What becomes of the address and the payment id that a text is read into. -/
inductive IntegratedParse where
  | parsed (addr : AccountPublicAddress) (paymentId : ByteString)
  | refused (addr : AccountPublicAddress) (paymentId : ByteString)
  /-- `substr` past the end of the blob. -/
  | thrown
deriving DecidableEq

/-- The format that a prefix asks for, with the payment id and what is left of the blob. -/
inductive IntegratedFormat where
  | wrong
  | thrown
  | format (asOldFormat : Bool) (blob paymentId : ByteString)

def integratedFormat (tag : UInt64) (blob : ByteString) : IntegratedFormat :=
  if tag = currencyPublicAddressBase58Prefix then
    if blob.length = oldAddressSize then .format true blob []
    else if blob.length = addressSize then .format false blob []
    else .wrong
  else if tag = currencyPublicAuditableAddressBase58Prefix then .format false blob []
  else if tag = currencyPublicIntegAddressBase58Prefix then
    .format true (blob.take oldAddressSize) (blob.drop oldAddressSize)
  else if tag = currencyPublicAuditableIntegAddressBase58Prefix ∨
      tag = currencyPublicIntegAddressV2Base58Prefix then
    if blob.length < addressSize then .thrown
    else .format false (blob.take addressSize) (blob.drop addressSize)
  else .wrong

section

variable (prims : AddressPrimitives)

def getAccountAddressAndPaymentIdAsStr (addr : AccountPublicAddress) (paymentId : ByteString) :
    ByteString :=
  if addr.flags = 0 then
    Base58.encodeAddr prims.cnFastHash currencyPublicIntegAddressBase58Prefix
      (oldAddressBlob addr ++ paymentId)
  else if addr.flags &&& accountPublicAddressFlagAuditable ≠ 0 then
    Base58.encodeAddr prims.cnFastHash currencyPublicAuditableIntegAddressBase58Prefix
      (addressBlob addr ++ paymentId)
  else
    Base58.encodeAddr prims.cnFastHash currencyPublicIntegAddressV2Base58Prefix
      (addressBlob addr ++ paymentId)

/-- `get_account_address_and_payment_id_from_str` of an address that is null before. -/
def getAccountAddressAndPaymentIdFromStr (str : ByteString) : IntegratedParse :=
  match Base58.decodeAddr prims.cnFastHash str with
  | none => .refused nullPubAddr []
  | some (tag, blob) =>
      if blob.length < oldAddressSize then .refused nullPubAddr []
      else if blob.length > addressSize + bcPaymentIdServiceSizeMax then .refused nullPubAddr []
      else
        match integratedFormat tag blob with
        | .wrong => .refused nullPubAddr []
        | .thrown => .thrown
        | .format asOldFormat blob paymentId =>
            let (r, addr) := parseAddressBlob prims asOldFormat blob
            if !r then .refused addr paymentId
            else if paymentId.length > bcPaymentIdServiceSizeMax then .refused addr paymentId
            else if !prims.checkKey addr.spendPublicKey || !prims.checkKey addr.viewPublicKey then
              .refused addr paymentId
            else .parsed addr paymentId

/-- `check_key` of both keys. -/
def ValidKeys (addr : AccountPublicAddress) : Prop :=
  prims.checkKey addr.spendPublicKey = true ∧ prims.checkKey addr.viewPublicKey = true

end

/-- What `get_account_address_from_str` has of the result: it drops the payment id. -/
def IntegratedParse.address : IntegratedParse → AddressParse
  | .parsed addr _ => .parsed addr
  | .refused addr _ => .refused addr
  | .thrown => .thrown

theorem addressFormat_eq (tag : UInt64) (blob : ByteString) :
    addressFormat tag blob =
      match integratedFormat tag blob with
      | .wrong => .wrong
      | .thrown => .thrown
      | .format asOldFormat blob paymentId => .format asOldFormat blob paymentId.length := by
  unfold addressFormat integratedFormat
  split_ifs <;> simp

variable (prims : AddressPrimitives)

/-- The reader of plain addresses is the reader of both, without the payment id. -/
theorem getAccountAddressFromStr_eq (str : ByteString) :
    getAccountAddressFromStr prims str =
      (getAccountAddressAndPaymentIdFromStr prims str).address := by
  unfold getAccountAddressFromStr getAccountAddressAndPaymentIdFromStr
  cases Base58.decodeAddr prims.cnFastHash str with
  | none => rfl
  | some text =>
      dsimp only
      rw [addressFormat_eq]
      split_ifs
      · rfl
      · rfl
      · cases integratedFormat text.1 text.2 with
        | wrong => rfl
        | thrown => rfl
        | format asOldFormat blob paymentId =>
            dsimp only
            split_ifs <;> rfl

/-! ## Blobs and addresses -/

theorem keyBytes_keyOfBytes {bytes : ByteString} (h : bytes.length = 32) :
    keyBytes (keyOfBytes bytes) = bytes := by
  have hlength : bytes.reverse.length = 32 := by rw [List.length_reverse, h]
  have hread := bytesOfNat_toNat_ofNat hlength
  rw [keyBytes, keyOfBytes, hread, List.reverse_reverse]

/-- The keys at the front of a blob are written as they were. -/
theorem oldAddressBlob_of_blob {blob : ByteString} (h : oldAddressSize ≤ blob.length)
    (flags : UInt8) :
    oldAddressBlob ⟨keyOfBytes (blob.take 32), keyOfBytes ((blob.drop 32).take 32), flags⟩ =
      blob.take oldAddressSize := by
  have hsize : oldAddressSize = 32 + 32 := rfl
  have hspend : (blob.take 32).length = 32 := by
    rw [List.length_take]
    omega
  have hview : ((blob.drop 32).take 32).length = 32 := by
    rw [List.length_take, List.length_drop]
    omega
  rw [oldAddressBlob, keyBytes_keyOfBytes hspend, keyBytes_keyOfBytes hview, hsize, List.take_add]

/-- The old format accepts the blobs of the keys. -/
theorem parseAddressBlob_true_iff {blob : ByteString} {addr : AccountPublicAddress} :
    parseAddressBlob prims true blob = (true, addr) ↔
      addr.flags = 0 ∧ blob = oldAddressBlob addr := by
  constructor
  · intro hparse
    rw [parseAddressBlob, if_pos rfl] at hparse
    split_ifs at hparse with hlength
    · rw [Prod.mk.injEq] at hparse
      obtain ⟨-, rfl⟩ := hparse
      refine ⟨rfl, ?_⟩
      rw [oldAddressBlob_of_blob hlength.ge, List.take_of_length_le hlength.le]
    · cases hparse
  · rintro ⟨hflags, rfl⟩
    exact parseAddressBlob_old prims hflags

/-- The new format accepts the blobs of the keys and the flags. -/
theorem parseAddressBlob_false_iff {blob : ByteString} {addr : AccountPublicAddress} :
    parseAddressBlob prims false blob = (true, addr) ↔ blob = addressBlob addr := by
  constructor
  · intro hparse
    rw [parseAddressBlob, if_neg Bool.false_ne_true, Prod.mk.injEq, decide_eq_true_eq] at hparse
    obtain ⟨hlength, rfl⟩ := hparse
    have hsizes : addressSize = oldAddressSize + 1 ∧ oldAddressSize = 64 := ⟨rfl, rfl⟩
    obtain ⟨flags, hlast⟩ : ∃ flags, blob.drop 64 = [flags] := by
      apply List.length_eq_one_iff.mp
      rw [List.length_drop]
      omega
    have hflags : blob[64]? = some flags := by
      have hdrop : (blob.drop 64)[0]? = some flags := by rw [hlast]; rfl
      rwa [List.getElem?_drop] at hdrop
    rw [addressBlob, oldAddressBlob_of_blob (by omega), hflags, Option.getD_some, ← hlast]
    exact (List.take_append_drop 64 blob).symm
  · rintro rfl
    exact parseAddressBlob_new prims addr

/-- The prefixes with the keys behind them, and then the payment id. -/
def InOldFormat (tag : UInt64) (paymentId : ByteString) : Prop :=
  tag = currencyPublicAddressBase58Prefix ∧ paymentId = [] ∨
    tag = currencyPublicIntegAddressBase58Prefix

/-- The prefixes that may have the flags behind the keys. -/
def InNewFormat (tag : UInt64) (paymentId : ByteString) : Prop :=
  (tag = currencyPublicAddressBase58Prefix ∨ tag = currencyPublicAuditableAddressBase58Prefix) ∧
      paymentId = [] ∨
    tag = currencyPublicAuditableIntegAddressBase58Prefix ∨
      tag = currencyPublicIntegAddressV2Base58Prefix

/-- What is found under a prefix when an address and a payment id are read. -/
inductive AcceptedBlob (addr : AccountPublicAddress) (tag : UInt64) (paymentId : ByteString) :
    ByteString → Prop
  | old : InOldFormat tag paymentId → addr.flags = 0 →
      AcceptedBlob addr tag paymentId (oldAddressBlob addr ++ paymentId)
  | new : InNewFormat tag paymentId →
      AcceptedBlob addr tag paymentId (addressBlob addr ++ paymentId)

/-- Two prefixes cut the blob behind the flags, which a blob of the size of the old address does
not have. -/
def CutsPastEnd (tag : UInt64) (blob : ByteString) : Prop :=
  blob.length = oldAddressSize ∧ (tag = currencyPublicAuditableIntegAddressBase58Prefix ∨
    tag = currencyPublicIntegAddressV2Base58Prefix)

/-- A prefix, and the format of the blob behind it, accept what they should find. -/
theorem acceptedBlob_iff {tag : UInt64} {blob paymentId : ByteString}
    {addr : AccountPublicAddress} :
    (∃ asOldFormat rest, integratedFormat tag blob = .format asOldFormat rest paymentId ∧
        parseAddressBlob prims asOldFormat rest = (true, addr)) ↔
      AcceptedBlob addr tag paymentId blob := by
  have hold := length_oldAddressBlob addr
  have hnew := length_addressBlob addr
  have hsizes : oldAddressSize = 64 ∧ addressSize = 65 := ⟨rfl, rfl⟩
  constructor
  · rintro ⟨asOldFormat, rest, hformat, hparse⟩
    unfold integratedFormat at hformat
    split_ifs at hformat with hnormal hsize hsize haud hinteg hv2 hshort <;> cases hformat
    · obtain ⟨hflags, rfl⟩ := (parseAddressBlob_true_iff prims).mp hparse
      simpa using AcceptedBlob.old (.inl ⟨hnormal, rfl⟩) hflags
    · rw [(parseAddressBlob_false_iff prims).mp hparse]
      simpa using AcceptedBlob.new (.inl ⟨.inl hnormal, rfl⟩)
    · rw [(parseAddressBlob_false_iff prims).mp hparse]
      simpa using AcceptedBlob.new (.inl ⟨.inr haud, rfl⟩)
    · obtain ⟨hflags, htake⟩ := (parseAddressBlob_true_iff prims).mp hparse
      have haccepted : AcceptedBlob addr tag (blob.drop oldAddressSize)
          (oldAddressBlob addr ++ blob.drop oldAddressSize) := .old (.inr hinteg) hflags
      rwa [← htake, List.take_append_drop] at haccepted
    · have htake := (parseAddressBlob_false_iff prims).mp hparse
      have haccepted : AcceptedBlob addr tag (blob.drop addressSize)
          (addressBlob addr ++ blob.drop addressSize) := .new (.inr hv2)
      rwa [← htake, List.take_append_drop] at haccepted
  · intro haccepted
    cases haccepted with
    | old htag hflags =>
        refine ⟨true, _, ?_, parseAddressBlob_old prims hflags⟩
        rcases htag with ⟨rfl, rfl⟩ | rfl
        · rw [List.append_nil, integratedFormat, if_pos rfl, if_pos hold]
        · rw [integratedFormat, if_neg (by decide), if_neg (by decide), if_pos rfl,
            List.take_left' hold, List.drop_left' hold]
    | new htag =>
        refine ⟨false, _, ?_, parseAddressBlob_new prims addr⟩
        rcases htag with ⟨rfl | rfl, rfl⟩ | htag
        · rw [List.append_nil, integratedFormat, if_pos rfl, if_neg (by omega), if_pos hnew]
        · rw [List.append_nil, integratedFormat, if_neg (by decide), if_pos rfl]
        · have hother : tag ≠ currencyPublicAddressBase58Prefix ∧
              tag ≠ currencyPublicAuditableAddressBase58Prefix ∧
              tag ≠ currencyPublicIntegAddressBase58Prefix := by
            rcases htag with rfl | rfl <;> decide
          rw [integratedFormat, if_neg hother.1, if_neg hother.2.1, if_neg hother.2.2, if_pos htag,
            if_neg (by rw [List.length_append]; omega), List.take_left' hnew, List.drop_left' hnew]

theorem integratedFormat_eq_thrown_iff {tag : UInt64} {blob : ByteString}
    (hsize : oldAddressSize ≤ blob.length) :
    integratedFormat tag blob = .thrown ↔ CutsPastEnd tag blob := by
  have hsizes : addressSize = oldAddressSize + 1 := rfl
  have hother : ∀ {prefixTag : UInt64}, tag = prefixTag →
      ¬ (prefixTag = currencyPublicAuditableIntegAddressBase58Prefix ∨
        prefixTag = currencyPublicIntegAddressV2Base58Prefix) → ¬ CutsPastEnd tag blob := by
    rintro _ rfl hnot ⟨-, htag⟩
    exact hnot htag
  unfold integratedFormat
  split_ifs with hnormal hold hnew haud hinteg hv2 hshort
  · exact iff_of_false (by simp) (hother hnormal (by decide))
  · exact iff_of_false (by simp) (hother hnormal (by decide))
  · exact iff_of_false (by simp) (hother hnormal (by decide))
  · exact iff_of_false (by simp) (hother haud (by decide))
  · exact iff_of_false (by simp) (hother hinteg (by decide))
  · exact iff_of_true rfl ⟨by omega, hv2⟩
  · exact iff_of_false (by simp) fun hcuts => hshort (by have := hcuts.1; omega)
  · exact iff_of_false (by simp) fun hcuts => hv2 hcuts.2

theorem AcceptedBlob.length {addr : AccountPublicAddress} {tag : UInt64}
    {paymentId blob : ByteString} (h : AcceptedBlob addr tag paymentId blob) :
    oldAddressSize ≤ blob.length ∧ blob.length ≤ addressSize + paymentId.length := by
  have hold := length_oldAddressBlob addr
  have hnew := length_addressBlob addr
  have hsizes : addressSize = oldAddressSize + 1 := rfl
  cases h <;> simp only [List.length_append] <;> omega

/-! ## Texts and addresses -/

/-- A text that gets past the checks of the size. -/
theorem getAccountAddressAndPaymentIdFromStr_encodeAddr {tag : UInt64} {blob : ByteString}
    (hlow : oldAddressSize ≤ blob.length)
    (hhigh : blob.length ≤ addressSize + bcPaymentIdServiceSizeMax) :
    getAccountAddressAndPaymentIdFromStr prims (Base58.encodeAddr prims.cnFastHash tag blob) =
      match integratedFormat tag blob with
      | .wrong => .refused nullPubAddr []
      | .thrown => .thrown
      | .format asOldFormat blob paymentId =>
          let (r, addr) := parseAddressBlob prims asOldFormat blob
          if !r then .refused addr paymentId
          else if paymentId.length > bcPaymentIdServiceSizeMax then .refused addr paymentId
          else if !prims.checkKey addr.spendPublicKey || !prims.checkKey addr.viewPublicKey then
            .refused addr paymentId
          else .parsed addr paymentId := by
  rw [getAccountAddressAndPaymentIdFromStr, Base58.decodeAddr_encodeAddr]
  dsimp only
  rw [if_neg (by omega), if_neg (by omega)]

/-- A text that is not refused for its size has one textual form. -/
theorem exists_of_getAccountAddressAndPaymentIdFromStr (str : ByteString)
    (h : ∀ addr paymentId,
      getAccountAddressAndPaymentIdFromStr prims str ≠ .refused addr paymentId) :
    ∃ tag blob, str = Base58.encodeAddr prims.cnFastHash tag blob ∧
      oldAddressSize ≤ blob.length ∧ blob.length ≤ addressSize + bcPaymentIdServiceSizeMax := by
  unfold getAccountAddressAndPaymentIdFromStr at h
  cases hdecode : Base58.decodeAddr prims.cnFastHash str with
  | none =>
      rw [hdecode] at h
      exact absurd rfl (h nullPubAddr [])
  | some text =>
      obtain ⟨tag, blob⟩ := text
      rw [hdecode] at h
      dsimp only at h
      split_ifs at h with hlow hhigh
      · exact absurd rfl (h nullPubAddr [])
      · exact absurd rfl (h nullPubAddr [])
      · have hblob : blob ≠ [] := by
          rintro rfl
          exact hlow (by decide)
        exact ⟨tag, blob, Base58.eq_encodeAddr_of_decodeAddr hdecode hblob, by omega, by omega⟩

/-- The accepted texts, each with the address and the payment id that are read. -/
theorem getAccountAddressAndPaymentIdFromStr_eq_parsed_iff {str paymentId : ByteString}
    {addr : AccountPublicAddress} :
    getAccountAddressAndPaymentIdFromStr prims str = .parsed addr paymentId ↔
      ∃ tag blob, str = Base58.encodeAddr prims.cnFastHash tag blob ∧
        AcceptedBlob addr tag paymentId blob ∧ ValidKeys prims addr ∧
        paymentId.length ≤ bcPaymentIdServiceSizeMax := by
  constructor
  · intro h
    obtain ⟨tag, blob, rfl, hlow, hhigh⟩ :=
      exists_of_getAccountAddressAndPaymentIdFromStr prims str (by simp [h])
    rw [getAccountAddressAndPaymentIdFromStr_encodeAddr prims hlow hhigh] at h
    cases hformat : integratedFormat tag blob with
    | wrong => simp [hformat] at h
    | thrown => simp [hformat] at h
    | format asOldFormat rest paymentId' =>
        rw [hformat] at h
        obtain ⟨r, addr', hparse⟩ : ∃ r addr', parseAddressBlob prims asOldFormat rest = (r, addr') :=
          ⟨_, _, rfl⟩
        simp only [hparse] at h
        split_ifs at h with hr hsize hkeys
        cases h
        have hkeys' : ValidKeys prims addr := by simpa [ValidKeys] using hkeys
        have hr' : r = true := by simpa using hr
        exact ⟨tag, blob, rfl, (acceptedBlob_iff prims).mp ⟨_, _, hformat, hr' ▸ hparse⟩, hkeys',
          by omega⟩
  · rintro ⟨tag, blob, rfl, haccepted, ⟨hspend, hview⟩, hsize⟩
    obtain ⟨hlow, hhigh⟩ := haccepted.length
    obtain ⟨asOldFormat, rest, hformat, hparse⟩ := (acceptedBlob_iff prims).mpr haccepted
    rw [getAccountAddressAndPaymentIdFromStr_encodeAddr prims hlow (by omega), hformat]
    dsimp only
    rw [hparse]
    simp [hspend, hview]
    omega

theorem getAccountAddressAndPaymentIdFromStr_eq_thrown_iff {str : ByteString} :
    getAccountAddressAndPaymentIdFromStr prims str = .thrown ↔
      ∃ tag blob, str = Base58.encodeAddr prims.cnFastHash tag blob ∧ CutsPastEnd tag blob := by
  constructor
  · intro h
    obtain ⟨tag, blob, rfl, hlow, hhigh⟩ :=
      exists_of_getAccountAddressAndPaymentIdFromStr prims str (by simp [h])
    rw [getAccountAddressAndPaymentIdFromStr_encodeAddr prims hlow hhigh] at h
    refine ⟨tag, blob, rfl, (integratedFormat_eq_thrown_iff hlow).mp ?_⟩
    cases hformat : integratedFormat tag blob with
    | wrong => simp [hformat] at h
    | thrown => rfl
    | format asOldFormat rest paymentId =>
        rw [hformat] at h
        dsimp only at h
        split_ifs at h
  · rintro ⟨tag, blob, rfl, hcuts⟩
    have hsize := hcuts.1
    have hsizes : addressSize = oldAddressSize + 1 := rfl
    rw [getAccountAddressAndPaymentIdFromStr_encodeAddr prims hsize.ge (by omega),
      (integratedFormat_eq_thrown_iff hsize.ge).mpr hcuts]

/-- The texts of an address and a payment id. -/
def IsRendering (addr : AccountPublicAddress) (paymentId str : ByteString) : Prop :=
  str = getAccountAddressAndPaymentIdAsStr prims addr paymentId ∨
    paymentId = [] ∧ str = getAccountAddressAsStr prims addr

/-- What the texts of addresses promise: an address with valid keys and a payment id that is not
too long are read back, nothing is thrown at a text, and a text that is accepted is one of those
that its address and its payment id have. -/
structure ReadsBack (addr : AccountPublicAddress) (paymentId str : ByteString) : Prop where
  read : ValidKeys prims addr → paymentId.length ≤ bcPaymentIdServiceSizeMax →
    getAccountAddressAndPaymentIdFromStr prims
        (getAccountAddressAndPaymentIdAsStr prims addr paymentId) = .parsed addr paymentId ∧
      getAccountAddressAndPaymentIdFromStr prims (getAccountAddressAsStr prims addr) =
        .parsed addr []
  total : getAccountAddressAndPaymentIdFromStr prims str ≠ .thrown
  rendered : ∀ addr' paymentId',
    getAccountAddressAndPaymentIdFromStr prims str = .parsed addr' paymentId' →
      IsRendering prims addr' paymentId' str

/-- The flags of an address in the new format are not zero, and have the auditable bit just under
the prefixes of auditable addresses. -/
def FlagsFit (tag : UInt64) (flags : UInt8) : Prop :=
  flags ≠ 0 ∧ (flags &&& accountPublicAddressFlagAuditable ≠ 0 ↔
    tag = currencyPublicAuditableAddressBase58Prefix ∨
      tag = currencyPublicAuditableIntegAddressBase58Prefix)

/-- No cut is made past the end of the blob, and the flags that are read fit the prefix. -/
def ProperText (str : ByteString) : Prop :=
  ∀ tag blob, str = Base58.encodeAddr prims.cnFastHash tag blob → ¬ CutsPastEnd tag blob ∧
    ∀ addr paymentId, blob = addressBlob addr ++ paymentId → InNewFormat tag paymentId →
      ValidKeys prims addr → paymentId.length ≤ bcPaymentIdServiceSizeMax →
        FlagsFit tag addr.flags

theorem encodeAddr_inj {tag tag' : UInt64} {blob blob' : ByteString} :
    Base58.encodeAddr prims.cnFastHash tag blob = Base58.encodeAddr prims.cnFastHash tag' blob' ↔
      tag = tag' ∧ blob = blob' := by
  constructor
  · intro h
    have hdecode := @Base58.decodeAddr_encodeAddr prims.cnFastHash tag blob
    rw [h, Base58.decodeAddr_encodeAddr, Option.some.injEq, Prod.mk.injEq] at hdecode
    exact ⟨hdecode.1.symm, hdecode.2.symm⟩
  · rintro ⟨rfl, rfl⟩
    rfl

/-- The old blob is shorter than the new one by the flags. -/
theorem oldAddressBlob_append_ne (addr : AccountPublicAddress) (paymentId : ByteString) :
    addressBlob addr ++ paymentId ≠ oldAddressBlob addr ++ paymentId := by
  intro h
  have hlength := congrArg List.length h
  rw [List.length_append, List.length_append, length_addressBlob, length_oldAddressBlob] at hlength
  have hsizes : addressSize = oldAddressSize + 1 := rfl
  omega

theorem newPrefixes_ne :
    currencyPublicAddressBase58Prefix ≠ currencyPublicAuditableAddressBase58Prefix ∧
      currencyPublicAddressBase58Prefix ≠ currencyPublicAuditableIntegAddressBase58Prefix ∧
      currencyPublicAddressBase58Prefix ≠ currencyPublicIntegAddressV2Base58Prefix ∧
      currencyPublicAuditableAddressBase58Prefix ≠ currencyPublicAddressBase58Prefix ∧
      currencyPublicAuditableAddressBase58Prefix ≠
        currencyPublicAuditableIntegAddressBase58Prefix ∧
      currencyPublicAuditableAddressBase58Prefix ≠ currencyPublicIntegAddressV2Base58Prefix ∧
      currencyPublicAuditableIntegAddressBase58Prefix ≠ currencyPublicAddressBase58Prefix ∧
      currencyPublicAuditableIntegAddressBase58Prefix ≠
        currencyPublicIntegAddressV2Base58Prefix ∧
      currencyPublicIntegAddressV2Base58Prefix ≠ currencyPublicAuditableAddressBase58Prefix ∧
      currencyPublicIntegAddressV2Base58Prefix ≠
        currencyPublicAuditableIntegAddressBase58Prefix := by
  decide

/-- A text in the new format is a rendering when its flags fit. -/
theorem isRendering_addressBlob_iff {tag : UInt64} {paymentId : ByteString}
    (addr : AccountPublicAddress) (hnew : InNewFormat tag paymentId) :
    IsRendering prims addr paymentId
        (Base58.encodeAddr prims.cnFastHash tag (addressBlob addr ++ paymentId)) ↔
      FlagsFit tag addr.flags := by
  have hold := oldAddressBlob_append_ne addr
  have hplain := hold []
  rw [List.append_nil, List.append_nil] at hplain
  unfold IsRendering getAccountAddressAndPaymentIdAsStr getAccountAddressAsStr FlagsFit
  by_cases hzero : addr.flags = 0
  · rw [if_pos hzero, if_pos hzero, encodeAddr_inj, encodeAddr_inj]
    refine iff_of_false ?_ (fun h => h.1 hzero)
    rintro (⟨-, hblob⟩ | ⟨rfl, -, hblob⟩)
    · exact hold paymentId hblob
    · rw [List.append_nil] at hblob
      exact hplain hblob
  rw [if_neg hzero, if_neg hzero]
  by_cases hauditable : addr.flags &&& accountPublicAddressFlagAuditable ≠ 0
  · rw [if_pos hauditable, if_pos hauditable, encodeAddr_inj, encodeAddr_inj]
    rcases hnew with ⟨rfl | rfl, rfl⟩ | rfl | rfl <;> simp [hzero, hauditable, newPrefixes_ne]
  · rw [if_neg hauditable, if_neg hauditable, encodeAddr_inj, encodeAddr_inj]
    rcases hnew with ⟨rfl | rfl, rfl⟩ | rfl | rfl <;> simp [hzero, hauditable, newPrefixes_ne]

/-- An accepted text is a rendering when it is in the old format or its flags fit. -/
theorem AcceptedBlob.isRendering_iff {addr : AccountPublicAddress} {tag : UInt64}
    {paymentId blob : ByteString} (h : AcceptedBlob addr tag paymentId blob) :
    IsRendering prims addr paymentId (Base58.encodeAddr prims.cnFastHash tag blob) ↔
      (blob = addressBlob addr ++ paymentId → InNewFormat tag paymentId →
        FlagsFit tag addr.flags) := by
  cases h with
  | old htag hflags =>
      refine iff_of_true ?_ fun hblob => absurd hblob.symm (oldAddressBlob_append_ne addr _)
      rcases htag with ⟨rfl, rfl⟩ | rfl
      · right
        rw [List.append_nil, getAccountAddressAsStr, if_pos hflags]
        exact ⟨rfl, rfl⟩
      · left
        rw [getAccountAddressAndPaymentIdAsStr, if_pos hflags]
  | new htag =>
      rw [isRendering_addressBlob_iff prims addr htag]
      exact ⟨fun hfit _ _ => hfit, fun hfit => hfit rfl htag⟩

/-- A rendering of an address has the blob that its reader looks for. -/
theorem exists_of_isRendering {addr : AccountPublicAddress} {paymentId str : ByteString}
    (h : IsRendering prims addr paymentId str) :
    ∃ tag blob, str = Base58.encodeAddr prims.cnFastHash tag blob ∧
      AcceptedBlob addr tag paymentId blob := by
  unfold IsRendering getAccountAddressAndPaymentIdAsStr getAccountAddressAsStr at h
  split_ifs at h with hzero hauditable
  · rcases h with rfl | ⟨rfl, rfl⟩
    · exact ⟨_, _, rfl, .old (.inr rfl) hzero⟩
    · exact ⟨_, _, rfl, by simpa using AcceptedBlob.old (.inl ⟨rfl, rfl⟩) hzero⟩
  · rcases h with rfl | ⟨rfl, rfl⟩
    · exact ⟨_, _, rfl, .new (.inr (.inl rfl))⟩
    · exact ⟨_, _, rfl, by simpa using AcceptedBlob.new (.inl ⟨.inr rfl, rfl⟩)⟩
  · rcases h with rfl | ⟨rfl, rfl⟩
    · exact ⟨_, _, rfl, .new (.inr (.inr rfl))⟩
    · exact ⟨_, _, rfl, by simpa using AcceptedBlob.new (.inl ⟨.inl rfl, rfl⟩)⟩

/-- Both texts of an address with valid keys and a payment id are read back. -/
theorem parsed_of_isRendering {addr : AccountPublicAddress} {paymentId str : ByteString}
    (hkeys : ValidKeys prims addr) (hsize : paymentId.length ≤ bcPaymentIdServiceSizeMax)
    (h : IsRendering prims addr paymentId str) :
    getAccountAddressAndPaymentIdFromStr prims str = .parsed addr paymentId := by
  obtain ⟨tag, blob, hstr, haccepted⟩ := exists_of_isRendering prims h
  exact (getAccountAddressAndPaymentIdFromStr_eq_parsed_iff prims).mpr
    ⟨tag, blob, hstr, haccepted, hkeys, hsize⟩

/-- Addresses read back, and a text is proper exactly when it is dealt with as promised. -/
theorem readsBack_iff (addr : AccountPublicAddress) (paymentId str : ByteString) :
    ReadsBack prims addr paymentId str ↔ ProperText prims str := by
  constructor
  · rintro ⟨-, htotal, hrendered⟩ tag blob rfl
    refine ⟨fun hcuts => htotal ?_, ?_⟩
    · exact (getAccountAddressAndPaymentIdFromStr_eq_thrown_iff prims).mpr ⟨tag, blob, rfl, hcuts⟩
    · intro addr' paymentId' hblob htag hkeys hsize
      subst hblob
      have haccepted : AcceptedBlob addr' tag paymentId' (addressBlob addr' ++ paymentId') :=
        .new htag
      have hparsed := (getAccountAddressAndPaymentIdFromStr_eq_parsed_iff prims).mpr
        ⟨tag, _, rfl, haccepted, hkeys, hsize⟩
      exact (haccepted.isRendering_iff prims).mp (hrendered addr' paymentId' hparsed) rfl htag
  · intro hproper
    refine ⟨fun hkeys hsize => ⟨?_, ?_⟩, fun hthrown => ?_, fun addr' paymentId' hparsed => ?_⟩
    · exact parsed_of_isRendering prims hkeys hsize (.inl rfl)
    · exact parsed_of_isRendering prims hkeys (Nat.zero_le _) (.inr ⟨rfl, rfl⟩)
    · obtain ⟨tag, blob, hstr, hcuts⟩ :=
        (getAccountAddressAndPaymentIdFromStr_eq_thrown_iff prims).mp hthrown
      exact (hproper tag blob hstr).1 hcuts
    · obtain ⟨tag, blob, rfl, haccepted, hkeys, hsize⟩ :=
        (getAccountAddressAndPaymentIdFromStr_eq_parsed_iff prims).mp hparsed
      refine (haccepted.isRendering_iff prims).mpr fun hblob htag => ?_
      exact (hproper tag blob rfl).2 addr' paymentId' hblob htag hkeys hsize

/-- Every key is taken, and the hash is zero. -/
def anyKeyPrimitives : AddressPrimitives where
  cnFastHash := fun _ => Vector.replicate 32 0
  checkKey := fun _ => true
  unreadChar := 0

/-- The prefix of the new integrated addresses before the keys of an old address: the payment id
would begin behind the end of the blob.  The prefix of plain addresses before flags that are zero:
the address is accepted, and has another text. -/
theorem short_integrated_text_throws :
    getAccountAddressAndPaymentIdFromStr anyKeyPrimitives
        (Base58.encodeAddr anyKeyPrimitives.cnFastHash currencyPublicIntegAddressV2Base58Prefix
          (List.replicate 64 0)) = .thrown ∧
      (getAccountAddressAndPaymentIdFromStr anyKeyPrimitives
          (Base58.encodeAddr anyKeyPrimitives.cnFastHash currencyPublicAddressBase58Prefix
            (addressBlob nullPubAddr)) = .parsed nullPubAddr [] ∧
        ¬ IsRendering anyKeyPrimitives nullPubAddr []
          (Base58.encodeAddr anyKeyPrimitives.cnFastHash currencyPublicAddressBase58Prefix
            (addressBlob nullPubAddr))) ∧
      ¬ ∀ prims addr paymentId str, ReadsBack prims addr paymentId str := by
  have hcuts : CutsPastEnd currencyPublicIntegAddressV2Base58Prefix (List.replicate 64 0) :=
    ⟨rfl, .inr rfl⟩
  have hthrown := (getAccountAddressAndPaymentIdFromStr_eq_thrown_iff anyKeyPrimitives).mpr
    ⟨_, _, rfl, hcuts⟩
  have hnew : InNewFormat currencyPublicAddressBase58Prefix [] := .inl ⟨.inl rfl, rfl⟩
  have haccepted : AcceptedBlob nullPubAddr currencyPublicAddressBase58Prefix []
      (addressBlob nullPubAddr) := by
    simpa using @AcceptedBlob.new nullPubAddr _ _ hnew
  have hrendering := isRendering_addressBlob_iff anyKeyPrimitives nullPubAddr hnew
  rw [List.append_nil] at hrendering
  refine ⟨hthrown, ⟨?_, fun h => (hrendering.mp h).1 rfl⟩, fun hclaim => ?_⟩
  · exact (getAccountAddressAndPaymentIdFromStr_eq_parsed_iff anyKeyPrimitives).mpr
      ⟨_, _, rfl, haccepted, ⟨rfl, rfl⟩, by decide⟩
  · exact (hclaim anyKeyPrimitives nullPubAddr [] _).total hthrown

end Chinet
