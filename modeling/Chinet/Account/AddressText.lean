import Chinet.Account.SeedPhrase
import Chinet.Common.Base58
import Chinet.Serialization.BinaryArchive

/-!
# Addresses as text

`get_account_address_as_str` and `get_account_address_from_str`.  The reader assigns the keys to
the address before it looks at the rest, so that a text that is refused can leave an address.
-/

namespace Chinet

def currencyPublicAddressBase58Prefix : UInt64 := 0x3055
def currencyPublicIntegAddressBase58Prefix : UInt64 := 0x2176
def currencyPublicIntegAddressV2Base58Prefix : UInt64 := 0x3746
def currencyPublicAuditableAddressBase58Prefix : UInt64 := 0x43c6
def currencyPublicAuditableIntegAddressBase58Prefix : UInt64 := 0x1d4549

def bcPaymentIdServiceSizeMax : Nat := 128

/-- `sizeof(account_public_address_old)` -/
def oldAddressSize : Nat := 64

/-- `sizeof(account_public_address)` -/
def addressSize : Nat := 65

/-- `null_pub_addr` -/
def nullPubAddr : AccountPublicAddress := ⟨nullPkey, nullPkey, 0⟩

/-- What the texts of addresses take from `crypto/`, and what a `char` holds that no byte was
read into. -/
structure AddressPrimitives where
  cnFastHash : ByteString → Vector UInt8 32
  checkKey : PublicKey → Bool
  unreadChar : UInt8

/-- What becomes of the address that a text is read into. -/
inductive AddressParse where
  | parsed (addr : AccountPublicAddress)
  | refused (addr : AccountPublicAddress)
  /-- `substr` past the end of the blob. -/
  | thrown
deriving DecidableEq

def keyBytes (key : PublicKey) : ByteString := (bytesOfNat 32 key.toNat).reverse

def keyOfBytes (bytes : ByteString) : PublicKey := BitVec.ofNat 256 (natOfBytes bytes.reverse)

/-- `t_serializable_object_to_blob` of the address without its flags. -/
def oldAddressBlob (addr : AccountPublicAddress) : ByteString :=
  keyBytes addr.spendPublicKey ++ keyBytes addr.viewPublicKey

def addressBlob (addr : AccountPublicAddress) : ByteString := oldAddressBlob addr ++ [addr.flags]

section

variable (prims : AddressPrimitives)

def getAccountAddressAsStr (addr : AccountPublicAddress) : ByteString :=
  if addr.flags = 0 then
    Base58.encodeAddr prims.cnFastHash currencyPublicAddressBase58Prefix (oldAddressBlob addr)
  else if addr.flags &&& accountPublicAddressFlagAuditable ≠ 0 then
    Base58.encodeAddr prims.cnFastHash currencyPublicAuditableAddressBase58Prefix (addressBlob addr)
  else
    Base58.encodeAddr prims.cnFastHash currencyPublicAddressBase58Prefix (addressBlob addr)

/-- `parse_binary` of the keys, and of the flags in the new format.  The blob has both keys. -/
def parseAddressBlob (asOldFormat : Bool) (blob : ByteString) : Bool × AccountPublicAddress :=
  let spendPublicKey := keyOfBytes (blob.take 32)
  let viewPublicKey := keyOfBytes ((blob.drop 32).take 32)
  if asOldFormat then
    -- the old address is a variable of its own, which is copied only if it was read
    if blob.length = oldAddressSize then (true, ⟨spendPublicKey, viewPublicKey, 0⟩)
    else (false, nullPubAddr)
  else
    (blob.length = addressSize,
      ⟨spendPublicKey, viewPublicKey, (blob[64]?).getD prims.unreadChar⟩)

/-- The format that a prefix asks for, with what is left of the blob and the size of the payment
id. -/
inductive AddressFormat where
  | wrong
  | thrown
  | format (asOldFormat : Bool) (blob : ByteString) (paymentIdSize : Nat)

def addressFormat (tag : UInt64) (blob : ByteString) : AddressFormat :=
  if tag = currencyPublicAddressBase58Prefix then
    if blob.length = oldAddressSize then .format true blob 0
    else if blob.length = addressSize then .format false blob 0
    else .wrong
  else if tag = currencyPublicAuditableAddressBase58Prefix then .format false blob 0
  else if tag = currencyPublicIntegAddressBase58Prefix then
    .format true (blob.take oldAddressSize) (blob.length - oldAddressSize)
  else if tag = currencyPublicAuditableIntegAddressBase58Prefix ∨
      tag = currencyPublicIntegAddressV2Base58Prefix then
    if blob.length < addressSize then .thrown
    else .format false (blob.take addressSize) (blob.length - addressSize)
  else .wrong

/-- `get_account_address_from_str` of an address that is null before. -/
def getAccountAddressFromStr (str : ByteString) : AddressParse :=
  match Base58.decodeAddr prims.cnFastHash str with
  | none => .refused nullPubAddr
  | some (tag, blob) =>
      if blob.length < oldAddressSize then .refused nullPubAddr
      else if blob.length > addressSize + bcPaymentIdServiceSizeMax then .refused nullPubAddr
      else
        match addressFormat tag blob with
        | .wrong => .refused nullPubAddr
        | .thrown => .thrown
        | .format asOldFormat blob paymentIdSize =>
            let (r, addr) := parseAddressBlob prims asOldFormat blob
            if !r then .refused addr
            else if paymentIdSize > bcPaymentIdServiceSizeMax then .refused addr
            else if !prims.checkKey addr.spendPublicKey || !prims.checkKey addr.viewPublicKey then
              .refused addr
            else .parsed addr

end

/-! ## Reading what was written -/

theorem length_keyBytes (key : PublicKey) : (keyBytes key).length = 32 := by
  rw [keyBytes, List.length_reverse, length_bytesOfNat]

theorem keyOfBytes_keyBytes (key : PublicKey) : keyOfBytes (keyBytes key) = key := by
  rw [keyOfBytes, keyBytes, List.reverse_reverse, natOfBytes_bytesOfNat, Nat.mod_eq_of_lt key.isLt,
    BitVec.ofNat_toNat, BitVec.setWidth_eq]

theorem length_oldAddressBlob (addr : AccountPublicAddress) :
    (oldAddressBlob addr).length = oldAddressSize := by
  rw [oldAddressBlob, List.length_append, length_keyBytes, length_keyBytes]
  rfl

theorem length_addressBlob (addr : AccountPublicAddress) :
    (addressBlob addr).length = addressSize := by
  rw [addressBlob, List.length_append, length_oldAddressBlob]
  rfl

/-- The keys are read back from a blob that begins with them. -/
theorem keys_of_blob (addr : AccountPublicAddress) (rest : ByteString) :
    keyOfBytes ((oldAddressBlob addr ++ rest).take 32) = addr.spendPublicKey ∧
      keyOfBytes (((oldAddressBlob addr ++ rest).drop 32).take 32) = addr.viewPublicKey := by
  have hspend := length_keyBytes addr.spendPublicKey
  have hview := length_keyBytes addr.viewPublicKey
  rw [oldAddressBlob, List.append_assoc, List.take_left' hspend, List.drop_left' hspend,
    List.take_left' hview, keyOfBytes_keyBytes, keyOfBytes_keyBytes]
  exact ⟨rfl, rfl⟩

variable (prims : AddressPrimitives)

theorem parseAddressBlob_old {addr : AccountPublicAddress} (h : addr.flags = 0) :
    parseAddressBlob prims true (oldAddressBlob addr) = (true, addr) := by
  obtain ⟨hspend, hview⟩ := keys_of_blob addr []
  rw [List.append_nil] at hspend hview
  rw [parseAddressBlob, if_pos rfl, if_pos (length_oldAddressBlob addr), hspend, hview, ← h]

theorem parseAddressBlob_new (addr : AccountPublicAddress) :
    parseAddressBlob prims false (addressBlob addr) = (true, addr) := by
  obtain ⟨hspend, hview⟩ := keys_of_blob addr [addr.flags]
  have hflags : (addressBlob addr)[64]? = some addr.flags := by
    rw [addressBlob, List.getElem?_append_right (by rw [length_oldAddressBlob]; rfl),
      length_oldAddressBlob]
    rfl
  rw [parseAddressBlob, if_neg Bool.false_ne_true, hflags, addressBlob, hspend, hview,
    ← addressBlob, length_addressBlob]
  rfl

/-- The text of an address with valid keys is read back. -/
theorem getAccountAddressFromStr_asStr {addr : AccountPublicAddress}
    (hspend : prims.checkKey addr.spendPublicKey = true)
    (hview : prims.checkKey addr.viewPublicKey = true) :
    getAccountAddressFromStr prims (getAccountAddressAsStr prims addr) = .parsed addr := by
  have hold := length_oldAddressBlob addr
  have hnew := length_addressBlob addr
  have hsizes : oldAddressSize = 64 ∧ addressSize = 65 ∧ bcPaymentIdServiceSizeMax = 128 :=
    ⟨rfl, rfl, rfl⟩
  unfold getAccountAddressAsStr
  by_cases hzero : addr.flags = 0
  · rw [if_pos hzero, getAccountAddressFromStr, Base58.decodeAddr_encodeAddr]
    dsimp only
    rw [if_neg (by omega), if_neg (by omega), addressFormat, if_pos rfl, if_pos hold]
    simp [parseAddressBlob_old prims hzero, hspend, hview]
  rw [if_neg hzero]
  by_cases hauditable : addr.flags &&& accountPublicAddressFlagAuditable ≠ 0
  · rw [if_pos hauditable, getAccountAddressFromStr, Base58.decodeAddr_encodeAddr]
    dsimp only
    rw [if_neg (by omega), if_neg (by omega), addressFormat, if_neg (by decide), if_pos rfl]
    simp [parseAddressBlob_new prims, hspend, hview]
  · rw [if_neg hauditable, getAccountAddressFromStr, Base58.decodeAddr_encodeAddr]
    dsimp only
    rw [if_neg (by omega), if_neg (by omega), addressFormat, if_pos rfl, if_neg (by omega),
      if_pos hnew]
    simp [parseAddressBlob_new prims, hspend, hview]

end Chinet
