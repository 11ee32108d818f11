import Chinet.Account.SeedPhrase
import Chinet.Crypto.RingSignatures
import Chinet.Lib.Keystream
import Chinet.Serialization.WireFormat

/-!
# Encrypted payload items

`construct_tx` encrypts the items of the extra and of the attachment for the recipient, and
`decrypt_payload_items` reads them again.  The recipient derives the key from the public key of the
transaction; the sender finds it, encrypted with the own spend key, in a `tx_crypto_checksum`.

A service attachment says by its flags whether its body is deflated, encrypted, encrypted for the
spend key of the recipient alone, and whether a hash of the body is put into its `security`.
-/

namespace Chinet
namespace Payload

open PartialSteps

abbrev Item := Wire.PayloadItem
abbrev ServiceAttachment := Wire.TxServiceAttachment

/-! ## Flags -/

def txServiceAttachmentEncryptBody : UInt8 := 1
def txServiceAttachmentDeflateBody : UInt8 := 2
def txServiceAttachmentEncryptBodyIsolateAuditable : UInt8 := 4
def txServiceAttachmentEncryptAddProof : UInt8 := 8

def encryptsBody (sa : ServiceAttachment) : Bool :=
  sa.flags &&& txServiceAttachmentEncryptBody != 0

def deflatesBody (sa : ServiceAttachment) : Bool :=
  sa.flags &&& txServiceAttachmentDeflateBody != 0

def isolatesAuditable (sa : ServiceAttachment) : Bool :=
  sa.flags &&& txServiceAttachmentEncryptBodyIsolateAuditable != 0

def addsProof (sa : ServiceAttachment) : Bool :=
  sa.flags &&& txServiceAttachmentEncryptAddProof != 0

/-! ## Data -/

/-- What is taken from `crypto/` and from `zlib_helper`. -/
structure Ops (P : Type) [AddCommGroup P] extends CurveOps P where
  /-- The zeros of `null_pkey` and of `null_derivation` are no point of the group. -/
  toBytes_ne_null : ∀ p, toBytes p ≠ 0
  /-- The stream of `chacha8` for a key. -/
  chacha8 : Vector UInt8 32 → Keystream.Blocks
  /-- `zlib_helper::pack`; nothing where it returns false. -/
  pack : ByteString → Option ByteString
  /-- `zlib_helper::unpack` -/
  unpack : ByteString → Option ByteString

/-- How a run ends without a result. -/
inductive Failure
  | undefined (cause : Undefined)
  | thrown
  | returnsFalse
deriving DecidableEq

abbrev Run := Except Failure

instance {α : Type} {x : Run α} {p : α → Prop} [DecidablePred p] :
    Decidable (∃ a, x = .ok a ∧ p a) :=
  match x with
  | .ok a => decidable_of_iff (p a) ⟨fun h => ⟨a, rfl, h⟩, fun ⟨_, h, hp⟩ => Except.ok.inj h ▸ hp⟩
  | .error _ => isFalse fun ⟨_, h, _⟩ => nomatch h

def orUndefined {α : Type} (x : Defined α) : Run α := x.mapError .undefined

def nullDerivation : KeyDerivation := 0

def nullSkey : SecretKey := 0

/-- `account_keys()` -/
def nullAccKeys : AccountKeys where
  accountAddress := ⟨nullPkey, nullPkey, 0⟩
  spendSecretKey := nullSkey
  viewSecretKey := nullSkey

/-- The fields of `finalize_tx_param` for the payload. -/
structure Param where
  extra : List Item
  attachments : List Item
  unlockTime : Nat
  cryptAddress : AccountPublicAddress
  expirationTime : Nat
  flags : Nat

/-- The two lists of a transaction. -/
structure Tx where
  extra : List Item
  attachment : List Item
deriving DecidableEq

namespace Ops

variable {P : Type} [AddCommGroup P] (ops : Ops P)

/-! ## Ciphers and hashes -/

def hashPod (bytes : Vector UInt8 32) : BitVec 256 :=
  BitVec.ofNat 256 (natOfBytes bytes.toList.reverse)

/-- The bytes of a scalar, lowest first. -/
def scalarBytes (sec : SecretKey) : ByteString := bytesOfNat 32 sec.toNat

/-- `chacha_crypt` of a string. -/
def chachaCrypt (pass : ByteString) (buff : ByteString) : ByteString :=
  Keystream.crypt (ops.chacha8 (ops.cnFastHash pass)) 0 buff

/-- `chacha_crypt` of a pod. -/
def chachaCryptPod {α : Type} (pod : Codec α) (pass : ByteString) (value : α) : α :=
  (pod.parse false (ops.chachaCrypt pass (pod.write value))).getD value

/-- `zlib_helper::pack` in place. -/
def packed (body : ByteString) : ByteString := (ops.pack body).getD body

/-- `zlib_helper::unpack` in place. -/
def unpacked (body : ByteString) : ByteString := (ops.unpack body).getD body

/-- The hash of a body that is salted with the hash of the derivation. -/
def proofHash (body : ByteString) (derivation : KeyDerivation) : PublicKey :=
  hashPod (ops.cnFastHash (body ++ (ops.cnFastHash (podBytes derivation)).toList))

/-- The first four bytes of the hash of a derivation. -/
def derivationHash (derivation : KeyDerivation) : BitVec 32 :=
  BitVec.ofNat 32 (natOfBytes ((ops.cnFastHash (podBytes derivation)).toList.take 4))

/-! ## The visitors -/

/-- The derivation from the spend key of the recipient. -/
def isolatedDerivation (pub : PublicKey) (sec : SecretKey) : Run KeyDerivation :=
  if pub = nullPkey ∨ sec = nullSkey then .error .thrown
  else do
    match ← orUndefined (ops.generateKeyDerivation pub sec) with
    | none => .error .thrown
    | some derivation => return derivation

/-- `derivation_local` -/
def derivationLocal (isolated : Bool) (pub : PublicKey) (sec : SecretKey) (key : KeyDerivation) :
    Run KeyDerivation :=
  if isolated then ops.isolatedDerivation pub sec else return key

/-- The service attachment, and whether it has been encrypted. -/
def encryptServiceAttachment (key : KeyDerivation) (onetimeSec : SecretKey)
    (destinationAddr : AccountPublicAddress) (sa : ServiceAttachment) :
    Run (ServiceAttachment × Bool) := do
  let originalBody := sa.body
  let body := if deflatesBody sa then ops.packed sa.body else sa.body
  if !encryptsBody sa then return ({ sa with body }, false)
  else
    let derivation ←
      ops.derivationLocal (isolatesAuditable sa) destinationAddr.spendPublicKey onetimeSec key
    let security :=
      if addsProof sa then sa.security ++ [ops.proofHash originalBody derivation] else sa.security
    return ({ sa with
      body := ops.chachaCrypt (podBytes derivation) body
      security }, true)

/-- `encrypt_attach_visitor`: the item, and whether `m_was_crypted_entries` is set. -/
def encryptItem (key : KeyDerivation) (onetimeSec : SecretKey)
    (destinationAddr : AccountPublicAddress) : Item → Run (Item × Bool)
  | .comment comment => return (.comment (ops.chachaCrypt (podBytes key) comment), true)
  | .payer accAddr =>
      return (.payer (ops.chachaCryptPod Wire.accountPublicAddress (podBytes key) accAddr), true)
  | .receiver accAddr =>
      return (.receiver (ops.chachaCryptPod Wire.accountPublicAddress (podBytes key) accAddr), true)
  | .payerOld accAddr =>
      return (.payerOld (ops.chachaCryptPod Wire.accountPublicAddressOld (podBytes key) accAddr),
        true)
  | .receiverOld accAddr =>
      return (.receiverOld (ops.chachaCryptPod Wire.accountPublicAddressOld (podBytes key) accAddr),
        true)
  | .serviceAttachment sa => do
      let (sa, crypted) ← ops.encryptServiceAttachment key onetimeSec destinationAddr sa
      return (.serviceAttachment sa, crypted)
  | item => return (item, false)

def encryptItems (key : KeyDerivation) (onetimeSec : SecretKey)
    (destinationAddr : AccountPublicAddress) : List Item → Run (List Item × Bool)
  | [] => return ([], false)
  | item :: rest => do
      let (item, crypted) ← ops.encryptItem key onetimeSec destinationAddr item
      let (rest, wasCrypted) ← encryptItems key onetimeSec destinationAddr rest
      return (item :: rest, crypted || wasCrypted)

/-- The service attachment that the reader is given, if any. -/
def decryptServiceAttachment (key : KeyDerivation) (accKeys : AccountKeys)
    (txOnetimePubkey : PublicKey) (sa : ServiceAttachment) : Run (Option ServiceAttachment) :=
  -- a wallet without the spend key is not given what is encrypted for that key
  if encryptsBody sa && isolatesAuditable sa && accKeys.spendSecretKey == nullSkey then return none
  else do
    let derivation ← ops.derivationLocal (encryptsBody sa && isolatesAuditable sa) txOnetimePubkey
      accKeys.spendSecretKey key
    let body := if encryptsBody sa then ops.chachaCrypt (podBytes derivation) sa.body else sa.body
    let body := if deflatesBody sa then ops.unpacked body else body
    if encryptsBody sa && addsProof sa && sa.security != [ops.proofHash body derivation] then
      return none
    else return some { sa with body }

/-- `decrypt_attach_visitor` -/
def decryptItem (key : KeyDerivation) (accKeys : AccountKeys) (txOnetimePubkey : PublicKey) :
    Item → Run (Option Item)
  | .comment comment => return some (.comment (ops.chachaCrypt (podBytes key) comment))
  | .serviceAttachment sa => do
      let sa? ← ops.decryptServiceAttachment key accKeys txOnetimePubkey sa
      return sa?.map .serviceAttachment
  | .payer accAddr =>
      return some (.payer (ops.chachaCryptPod Wire.accountPublicAddress (podBytes key) accAddr))
  | .receiver accAddr =>
      return some (.receiver (ops.chachaCryptPod Wire.accountPublicAddress (podBytes key) accAddr))
  | .payerOld accAddr =>
      return some (.payerOld
        (ops.chachaCryptPod Wire.accountPublicAddressOld (podBytes key) accAddr))
  | .receiverOld accAddr =>
      return some (.receiverOld
        (ops.chachaCryptPod Wire.accountPublicAddressOld (podBytes key) accAddr))
  | item => return some item

def decryptItems (key : KeyDerivation) (accKeys : AccountKeys) (txOnetimePubkey : PublicKey) :
    List Item → Run (List Item)
  | [] => return []
  | item :: rest => do
      let item? ← ops.decryptItem key accKeys txOnetimePubkey item
      let rest ← decryptItems key accKeys txOnetimePubkey rest
      return item?.toList ++ rest

/-! ## Reading -/

def asCryptoChecksum : Item → Option Wire.TxCryptoChecksum
  | .cryptoChecksum info => some info
  | _ => none

def asPublicKey : Item → Option PublicKey
  | .publicKey key => some key
  | _ => none

/-- `get_type_in_variant_container` of a `tx_crypto_checksum`. -/
def firstCryptoChecksum (items : List Item) : Option Wire.TxCryptoChecksum :=
  items.findSome? asCryptoChecksum

def getTxPubKeyFromExtra (extra : List Item) : PublicKey :=
  (extra.findSome? asPublicKey).getD nullPkey

/-- The derivation of a reader: the recipient derives it, and the sender decrypts it. -/
def readerDerivation (isIncome : Bool) (extra : List Item) (accKeys : AccountKeys)
    (cryptoInfo : Wire.TxCryptoChecksum) : Run (Option KeyDerivation) :=
  if isIncome then
    orUndefined (ops.generateKeyDerivation (getTxPubKeyFromExtra extra) accKeys.viewSecretKey)
  else
    return some (ops.chachaCryptPod Wire.keyDerivation (scalarBytes accKeys.spendSecretKey)
      cryptoInfo.encryptedKeyDerivation)

/-- `get_encryption_key_derivation` -/
def getEncryptionKeyDerivation (isIncome : Bool) (tx : Tx) (accKeys : AccountKeys) :
    Run KeyDerivation :=
  match (firstCryptoChecksum tx.extra).or (firstCryptoChecksum tx.attachment) with
  | none => return nullDerivation
  | some cryptoInfo => do
      match ← ops.readerDerivation isIncome tx.extra accKeys cryptoInfo with
      | none => return nullDerivation
      | some derivation =>
          return if ops.derivationHash derivation = cryptoInfo.derivationHash then derivation
            else nullDerivation

/-- `decrypt_payload_items` -/
def decryptPayloadItems (isIncome : Bool) (tx : Tx) (accKeys : AccountKeys) : Run (List Item) := do
  let derivation ← ops.getEncryptionKeyDerivation isIncome tx accKeys
  if derivation = nullDerivation then return tx.extra ++ tx.attachment
  else
    let readerKeys := if isIncome then accKeys else nullAccKeys
    let txOnetimePubkey := getTxPubKeyFromExtra tx.extra
    let extra ← ops.decryptItems derivation readerKeys txOnetimePubkey tx.extra
    let attachment ← ops.decryptItems derivation readerKeys txOnetimePubkey tx.attachment
    return extra ++ attachment

/-! ## Constructing -/

/-- `encrypt_attachments` -/
def encryptAttachments (tx : Tx) (senderKeys : AccountKeys) (destinationAddr : AccountPublicAddress)
    (txRandomSec : SecretKey) : Run Tx := do
  match ← orUndefined (ops.generateKeyDerivation destinationAddr.viewPublicKey txRandomSec) with
  | none => return tx
  | some derivation =>
      let (attachment, wasAttachmentCrypted) ←
        ops.encryptItems derivation txRandomSec destinationAddr tx.attachment
      let (extra, wasExtraCrypted) ←
        ops.encryptItems derivation txRandomSec destinationAddr tx.extra
      let chs : Item := .cryptoChecksum {
        encryptedKeyDerivation :=
          ops.chachaCryptPod Wire.keyDerivation (scalarBytes senderKeys.spendSecretKey) derivation
        derivationHash := ops.derivationHash derivation }
      if wasExtraCrypted then
        return { extra := extra ++ [chs]
                 attachment }
      else if wasAttachmentCrypted then
        return { extra
                 attachment := attachment ++ [chs] }
      else
        return { extra
                 attachment }

/-- `update_or_add_field_to_extra` -/
def updateOrAddFieldToExtra (v : Item) : List Item → List Item
  | [] => [v]
  | ev :: rest => if ev.ctorIdx = v.ctorIdx then v :: rest else ev :: updateOrAddFieldToExtra v rest

/-- `set_tx_x_detail` of a value that is not zero. -/
def setTxXDetail (detail : Nat → Item) (v : Nat) (extra : List Item) : List Item :=
  if v ≠ 0 then updateOrAddFieldToExtra (detail v) extra else extra

/-- The extra before it is encrypted. -/
def constructExtra (param : Param) (txPub : PublicKey) : List Item :=
  let extra := setTxXDetail .unlockTime param.unlockTime param.extra
  let extra := setTxXDetail .detailsFlags param.flags extra
  let extra := setTxXDetail .expirationTime param.expirationTime extra
  let extra := extra ++ [.publicKey txPub]
  updateOrAddFieldToExtra (.flags16 0) extra

/-- `derive_public_key_from_target_address` -/
def derivePublicKeyFromTargetAddress (destinationAddr : AccountPublicAddress) (txSec : SecretKey)
    (index : Nat) : Run (Option PublicKey) := do
  match ← orUndefined (ops.generateKeyDerivation destinationAddr.viewPublicKey txSec) with
  | none => return none
  | some derivation =>
      orUndefined
        (ops.derivePublicKey derivation (UInt64.ofNat index) destinationAddr.spendPublicKey)

/-- The `security` of a service attachment, by the number of service attachments in front. -/
def derivedSecurity (senderAddr : AccountPublicAddress) (oneTimeSec : SecretKey) (attCount : Nat) :
    List PublicKey → Run (List PublicKey)
  | [] => return []
  | [_] => do
      match ← ops.derivePublicKeyFromTargetAddress senderAddr oneTimeSec attCount with
      | none => .error .returnsFalse
      | some key => return [key]
  | _ => .error .returnsFalse

/-- The loop over the service attachments that puts derived keys into their `security`. -/
def deriveSecurity (senderAddr : AccountPublicAddress) (oneTimeSec : SecretKey) :
    Nat → List Item → Run (List Item)
  | _, [] => return []
  | attCount, .serviceAttachment tsa :: rest => do
      let security ← ops.derivedSecurity senderAddr oneTimeSec attCount tsa.security
      let rest ← deriveSecurity senderAddr oneTimeSec (attCount + 1) rest
      return .serviceAttachment { tsa with security } :: rest
  | attCount, o :: rest => do
      let rest ← deriveSecurity senderAddr oneTimeSec attCount rest
      return o :: rest

def getAttachmentExtraInfoDetails (attachment : List Item) : ExtraAttachmentInfo :=
  let buff := (serializeVector Wire.payloadItemsV).write attachment
  { sz := buff.length
    hsh := hashPod (ops.cnFastHash buff)
    cnt := attachment.length }

/-- What `construct_tx` does with the extra and the attachments of a new transaction.  The outputs
add hints to the extra; the inputs and the signatures leave both lists alone. -/
def constructPayload (senderKeys : AccountKeys) (param : Param) (txKey : ops.KeyPair)
    (hints : List ByteString) : Run Tx := do
  let tx ← ops.encryptAttachments
    { extra := constructExtra param txKey.pub
      attachment := param.attachments } senderKeys param.cryptAddress txKey.sec
  let extra := tx.extra ++ hints.map .derivationHint
  let attachment ← ops.deriveSecurity senderKeys.accountAddress txKey.sec 0 tx.attachment
  -- an input of a transaction that is signed in parts has the information instead
  if param.flags % 2 ≠ txFlagSignatureModeSeparate ∧ attachment ≠ [] then
    return { extra := extra ++ [.attachmentInfo (ops.getAttachmentExtraInfoDetails attachment)]
             attachment }
  else
    return { extra
             attachment }

end Ops
end Payload
end Chinet
