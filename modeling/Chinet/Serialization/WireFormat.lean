import Chinet.Serialization.BinaryArchive

/-!
# The wire format of transactions and blocks

The `do_serialize` functions of `currency_basic.h`, field by field.  The payload items have all of
their alternatives here, so the transaction and the block that carry them are types of their own.
-/

namespace Chinet
namespace Wire

/-! ## Payload items -/

structure AccountPublicAddressOld where
  spendPublicKey : PublicKey
  viewPublicKey : PublicKey
deriving DecidableEq

structure TxCryptoChecksum where
  encryptedKeyDerivation : BitVec 256
  derivationHash : BitVec 32
deriving DecidableEq

structure TxServiceAttachment where
  serviceId : ByteString
  instruction : ByteString
  body : ByteString
  security : List PublicKey
  flags : UInt8
deriving DecidableEq

structure ExtraAliasEntryBaseOld where
  mAddress : AccountPublicAddressOld
  mTextComment : ByteString
  mViewKey : List (BitVec 256)
  mSign : List Signature
deriving DecidableEq

structure ExtraAliasEntryOld extends ExtraAliasEntryBaseOld where
  mAlias : ByteString
deriving DecidableEq

/-- `payload_items_v`; an alternative of one field carries the field. -/
inductive PayloadItem
  | serviceAttachment (item : TxServiceAttachment)
  | comment (comment : ByteString)
  | payerOld (accAddr : AccountPublicAddressOld)
  | receiverOld (accAddr : AccountPublicAddressOld)
  | derivationHint (msg : ByteString)
  | string (s : ByteString)
  | cryptoChecksum (item : TxCryptoChecksum)
  | txTime (v : Nat)
  | unlockTime (v : Nat)
  | expirationTime (v : Nat)
  | detailsFlags (v : Nat)
  | publicKey (key : PublicKey)
  | attachmentInfo (info : ExtraAttachmentInfo)
  | aliasEntryOld (entry : ExtraAliasEntryOld)
  | userData (buff : ByteString)
  | padding (buff : ByteString)
  | flags16 (v : BitVec 16)
  | unlockTime2 (unlockTimeArray : List Nat)
  | payer (accAddr : AccountPublicAddress)
  | receiver (accAddr : AccountPublicAddress)
  | aliasEntry (entry : ExtraAliasEntry)
deriving DecidableEq

/-- The version is one that `do_serialize` lets pass. -/
structure TransactionPrefix where
  version : { version : Nat // ¬ currentTransactionVersion < version }
  extra : List PayloadItem
  vin : List Txin
  vout : List TxOut
deriving DecidableEq

structure Transaction extends TransactionPrefix where
  signatures : List (List Signature)
  attachment : List PayloadItem
deriving DecidableEq

structure BlockHeader where
  majorVersion : { version : UInt8 // ¬ version > currentBlockMajorVersion }
  minorVersion : Nat
  timestamp : Nat
  prevId : Hash
  nonce : BitVec 64
  flags : UInt8
deriving DecidableEq

structure Block extends BlockHeader where
  minerTx : Transaction
  txHashes : List Hash
deriving DecidableEq

/-! ## `do_serialize` -/

def hash : Codec Hash := serializeBlob 32

def publicKey : Codec PublicKey := serializeBlob 32

def secretKey : Codec (BitVec 256) := serializeBlob 32

def keyImage : Codec KeyImage := serializeBlob 32

def keyDerivation : Codec (BitVec 256) := serializeBlob 32

def signature : Codec Signature := serializeBlob 64

def uint64 : Codec UInt64 := (serializeUint 8).map UInt64.ofBitVec UInt64.toBitVec fun _ => rfl

def uint32Field : Codec Nat := varintField 32 (Nat.zero_lt_succ 31)

def accountPublicAddressOld : Codec AccountPublicAddressOld :=
  (publicKey.pair publicKey).map (fun v => ⟨v.1, v.2⟩)
    (fun a => (a.spendPublicKey, a.viewPublicKey)) fun _ => rfl

def accountPublicAddress : Codec AccountPublicAddress :=
  (publicKey.pair (publicKey.pair Codec.byte)).map (fun v => ⟨v.1, v.2.1, v.2.2⟩)
    (fun a => (a.spendPublicKey, a.viewPublicKey, a.flags)) fun _ => rfl

def extraAttachmentInfo : Codec ExtraAttachmentInfo :=
  (uint64Field.pair (hash.pair uint64Field)).map (fun v => ⟨v.1, v.2.1, v.2.2⟩)
    (fun i => (i.sz, i.hsh, i.cnt)) fun _ => rfl

def refById : Codec (Hash × Nat) := hash.pair uint32Field

/-- `txout_ref_v`. -/
def txoutRefV : Codec TxoutRef :=
  Codec.variant
    [⟨26, UInt64, uint64, .globalIndex, fun | .globalIndex i => some i | _ => none, fun _ => rfl⟩,
      ⟨25, Hash × Nat, refById, fun v => .refById v.1 v.2,
        fun | .refById txId n => some (txId, n) | _ => none, fun _ => rfl⟩]
    (by simp [Codec.Disjoint])

def signedParts : Codec (Nat × Nat) := uint32Field.pair uint32Field

/-- `txin_etc_details_v`. -/
def txinEtcDetailsV : Codec TxinEtcDetails :=
  Codec.variant
    [⟨17, Nat × Nat, signedParts, fun v => .signedParts v.1 v.2,
        fun | .signedParts nOuts nExtras => some (nOuts, nExtras) | _ => none, fun _ => rfl⟩,
      ⟨18, ExtraAttachmentInfo, extraAttachmentInfo, .attachmentInfo,
        fun | .attachmentInfo info => some info | _ => none, fun _ => rfl⟩]
    (by simp [Codec.Disjoint])

def txinToKey : Codec TxinToKey :=
  (uint64Varint.pair ((serializeVector txoutRefV).pair
      (keyImage.pair (serializeVector txinEtcDetailsV)))).map
    (fun v => ⟨v.1, v.2.1, v.2.2.1, v.2.2.2⟩)
    (fun i => (i.amount, i.keyOffsets, i.kImage, i.etcDetails)) fun _ => rfl

def txinHtlc : Codec TxinHtlc :=
  (serializeString.pair txinToKey).map (fun v => ⟨v.2, v.1⟩)
    (fun i => (i.hltcOrigin, i.toTxinToKey)) fun _ => rfl

def txinMultisig : Codec TxinMultisig :=
  (uint64Varint.pair (hash.pair (uint32Field.pair (serializeVector txinEtcDetailsV)))).map
    (fun v => ⟨v.1, v.2.1, v.2.2.1, v.2.2.2⟩)
    (fun i => (i.amount, i.multisigOutId, i.sigsCount, i.etcDetails)) fun _ => rfl

/-- `txin_v`. -/
def txinV : Codec Txin :=
  Codec.variant
    [⟨0, Nat, uint64Field, .gen, fun | .gen height => some height | _ => none, fun _ => rfl⟩,
      ⟨1, TxinToKey, txinToKey, .toKey, fun | .toKey i => some i | _ => none, fun _ => rfl⟩,
      ⟨2, TxinMultisig, txinMultisig, .multisig, fun | .multisig i => some i | _ => none,
        fun _ => rfl⟩,
      ⟨34, TxinHtlc, txinHtlc, .htlc, fun | .htlc i => some i | _ => none, fun _ => rfl⟩]
    (by simp [Codec.Disjoint])

/-- `txout_to_key` is a pod of two fields. -/
def txoutToKey : Codec TxoutToKey :=
  (publicKey.pair Codec.byte).map (fun v => ⟨v.1, v.2⟩) (fun o => (o.key, o.mixAttr)) fun _ => rfl

def txoutMultisig : Codec TxoutMultisig :=
  (uint32Field.pair (serializeVector publicKey)).map (fun v => ⟨v.1, v.2⟩)
    (fun o => (o.minimumSigs, o.keys)) fun _ => rfl

def txoutHtlc : Codec TxoutHtlc :=
  (hash.pair (Codec.byte.pair (uint64Field.pair (publicKey.pair publicKey)))).map
    (fun v => ⟨v.1, v.2.1, v.2.2.1, v.2.2.2.1, v.2.2.2.2⟩)
    (fun o => (o.htlcHash, o.flags, o.expiration, o.pkeyRedeem, o.pkeyRefund)) fun _ => rfl

/-- `txout_target_v`. -/
def txoutTargetV : Codec TxoutTarget :=
  Codec.variant
    [⟨3, TxoutToKey, txoutToKey, .toKey, fun | .toKey o => some o | _ => none, fun _ => rfl⟩,
      ⟨4, TxoutMultisig, txoutMultisig, .multisig, fun | .multisig o => some o | _ => none,
        fun _ => rfl⟩,
      ⟨35, TxoutHtlc, txoutHtlc, .htlc, fun | .htlc o => some o | _ => none, fun _ => rfl⟩]
    (by simp [Codec.Disjoint])

def txOut : Codec TxOut :=
  (uint64Varint.pair txoutTargetV).map (fun v => ⟨v.1, v.2⟩) (fun o => (o.amount, o.target))
    fun _ => rfl

def txServiceAttachment : Codec TxServiceAttachment :=
  (serializeString.pair (serializeString.pair (serializeString.pair
      ((serializeVector publicKey).pair Codec.byte)))).map
    (fun v => ⟨v.1, v.2.1, v.2.2.1, v.2.2.2.1, v.2.2.2.2⟩)
    (fun i => (i.serviceId, i.instruction, i.body, i.security, i.flags)) fun _ => rfl

def txCryptoChecksum : Codec TxCryptoChecksum :=
  (keyDerivation.pair (serializeUint 4)).map (fun v => ⟨v.1, v.2⟩)
    (fun i => (i.encryptedKeyDerivation, i.derivationHash)) fun _ => rfl

def extraAliasEntryBaseOld : Codec ExtraAliasEntryBaseOld :=
  (accountPublicAddressOld.pair (serializeString.pair
      ((serializeVector secretKey).pair (serializeVector signature)))).map
    (fun v => ⟨v.1, v.2.1, v.2.2.1, v.2.2.2⟩)
    (fun e => (e.mAddress, e.mTextComment, e.mViewKey, e.mSign)) fun _ => rfl

def extraAliasEntryOld : Codec ExtraAliasEntryOld :=
  (serializeString.pair extraAliasEntryBaseOld).map (fun v => ⟨v.2, v.1⟩)
    (fun e => (e.mAlias, e.toExtraAliasEntryBaseOld)) fun _ => rfl

def extraAliasEntryBase : Codec ExtraAliasEntryBase :=
  (accountPublicAddress.pair (serializeString.pair
      ((serializeVector secretKey).pair (serializeVector signature)))).map
    (fun v => ⟨v.1, v.2.1, v.2.2.1, v.2.2.2⟩)
    (fun e => (e.mAddress, e.mTextComment, e.mViewKey, e.mSign)) fun _ => rfl

def extraAliasEntry : Codec ExtraAliasEntry :=
  (serializeString.pair extraAliasEntryBase).map (fun v => ⟨v.2, v.1⟩)
    (fun e => (e.mAlias, e.toExtraAliasEntryBase)) fun _ => rfl

/-- `payload_items_v`, in the order of its types. -/
def payloadItemsV : Codec PayloadItem :=
  Codec.variant
    [⟨12, TxServiceAttachment, txServiceAttachment, .serviceAttachment,
        fun | .serviceAttachment i => some i | _ => none, fun _ => rfl⟩,
      ⟨7, ByteString, serializeString, .comment, fun | .comment c => some c | _ => none,
        fun _ => rfl⟩,
      ⟨8, AccountPublicAddressOld, accountPublicAddressOld, .payerOld,
        fun | .payerOld a => some a | _ => none, fun _ => rfl⟩,
      ⟨29, AccountPublicAddressOld, accountPublicAddressOld, .receiverOld,
        fun | .receiverOld a => some a | _ => none, fun _ => rfl⟩,
      ⟨11, ByteString, serializeString, .derivationHint,
        fun | .derivationHint m => some m | _ => none, fun _ => rfl⟩,
      ⟨9, ByteString, serializeString, .string, fun | .string s => some s | _ => none,
        fun _ => rfl⟩,
      ⟨10, TxCryptoChecksum, txCryptoChecksum, .cryptoChecksum,
        fun | .cryptoChecksum i => some i | _ => none, fun _ => rfl⟩,
      ⟨27, Nat, uint64Field, .txTime, fun | .txTime v => some v | _ => none, fun _ => rfl⟩,
      ⟨14, Nat, uint64Field, .unlockTime, fun | .unlockTime v => some v | _ => none,
        fun _ => rfl⟩,
      ⟨15, Nat, uint64Field, .expirationTime, fun | .expirationTime v => some v | _ => none,
        fun _ => rfl⟩,
      ⟨16, Nat, uint64Field, .detailsFlags, fun | .detailsFlags v => some v | _ => none,
        fun _ => rfl⟩,
      ⟨22, PublicKey, publicKey, .publicKey, fun | .publicKey k => some k | _ => none,
        fun _ => rfl⟩,
      ⟨18, ExtraAttachmentInfo, extraAttachmentInfo, .attachmentInfo,
        fun | .attachmentInfo i => some i | _ => none, fun _ => rfl⟩,
      ⟨20, ExtraAliasEntryOld, extraAliasEntryOld, .aliasEntryOld,
        fun | .aliasEntryOld e => some e | _ => none, fun _ => rfl⟩,
      ⟨19, ByteString, serializeString, .userData, fun | .userData b => some b | _ => none,
        fun _ => rfl⟩,
      ⟨21, ByteString, serializeVector Codec.byte, .padding,
        fun | .padding b => some b | _ => none, fun _ => rfl⟩,
      ⟨23, BitVec 16, serializeUint 2, .flags16, fun | .flags16 v => some v | _ => none,
        fun _ => rfl⟩,
      ⟨30, List Nat, serializeVector uint64Field, .unlockTime2,
        fun | .unlockTime2 l => some l | _ => none, fun _ => rfl⟩,
      ⟨31, AccountPublicAddress, accountPublicAddress, .payer,
        fun | .payer a => some a | _ => none, fun _ => rfl⟩,
      ⟨32, AccountPublicAddress, accountPublicAddress, .receiver,
        fun | .receiver a => some a | _ => none, fun _ => rfl⟩,
      ⟨33, ExtraAliasEntry, extraAliasEntry, .aliasEntry,
        fun | .aliasEntry e => some e | _ => none, fun _ => rfl⟩]
    (by simp [Codec.Disjoint])

def transactionPrefix : Codec TransactionPrefix :=
  ((uint64Field.check fun version => ¬ currentTransactionVersion < version).pair
      ((serializeVector txinV).pair
        ((serializeVector txOut).pair (serializeVector payloadItemsV)))).map
    (fun v => ⟨v.1, v.2.2.2, v.2.1, v.2.2.1⟩)
    (fun t => (t.version, t.vin, t.vout, t.extra)) fun _ => rfl

def transaction : Codec Transaction :=
  (transactionPrefix.pair ((serializeVector (serializeVector signature)).pair
      (serializeVector payloadItemsV))).map
    (fun v => ⟨v.1, v.2.1, v.2.2⟩)
    (fun t => (t.toTransactionPrefix, t.signatures, t.attachment)) fun _ => rfl

def blockHeader : Codec BlockHeader :=
  ((Codec.byte.check fun version => ¬ version > currentBlockMajorVersion).pair
      ((serializeUint 8).pair (hash.pair
        ((varintField 8 (Nat.zero_lt_succ 7)).pair (uint64Field.pair Codec.byte))))).map
    (fun v => ⟨v.1, v.2.2.2.1, v.2.2.2.2.1, v.2.2.1, v.2.1, v.2.2.2.2.2⟩)
    (fun b => (b.majorVersion, b.nonce, b.prevId, b.minorVersion, b.timestamp, b.flags))
    fun _ => rfl

def block : Codec Block :=
  (blockHeader.pair (transaction.pair (serializeVector hash))).map
    (fun v => ⟨v.1, v.2.1, v.2.2⟩)
    (fun b => (b.toBlockHeader, b.minerTx, b.txHashes)) fun _ => rfl

/-! ## The wire form -/

/-- An accepted transaction or block is written back as it came exactly when all of its varints
are well formed. -/
theorem wire_form_canonical_iff (blob : ByteString) :
    (∀ tx, tUnserializableObjectFromBlob transaction blob = some tx →
      (tSerializableObjectToBlob transaction tx = blob ↔ VarintsWellFormed transaction blob)) ∧
    ∀ b, tUnserializableObjectFromBlob block blob = some b →
      (tSerializableObjectToBlob block b = blob ↔ VarintsWellFormed block blob) :=
  ⟨fun _ h => Codec.write_eq_iff h, fun _ h => Codec.write_eq_iff h⟩

/-- A transaction with a generating input and one output. -/
def sampleTransaction : Transaction :=
  ⟨⟨⟨1, by decide⟩, [.publicKey 0x42], [.gen 300], [⟨500, .toKey ⟨0x41, 0⟩⟩]⟩, [], []⟩

def sampleBlob : ByteString :=
  [1, 1, 0, 0xac, 2, 1, 0xf4, 3, 3] ++ List.replicate 31 0 ++ [0x41, 0, 1, 22] ++
    List.replicate 31 0 ++ [0x42, 0, 0]

theorem parse_sampleBlob :
    tUnserializableObjectFromBlob transaction sampleBlob = some sampleTransaction := by
  decide

/-- The transaction has the blob that it was parsed from. -/
theorem wire_form_canonical_iff_sample :
    (tSerializableObjectToBlob transaction sampleTransaction = sampleBlob ↔
        VarintsWellFormed transaction sampleBlob) ∧
      VarintsWellFormed transaction sampleBlob :=
  ⟨(wire_form_canonical_iff sampleBlob).1 sampleTransaction parse_sampleBlob, by decide⟩

def emptyTransaction : Transaction := ⟨⟨⟨1, by decide⟩, [], [], []⟩, [], []⟩

/-- The empty transaction as it is written, with its version in two bytes, and without the number
of its attachments. -/
theorem parse_emptyTransaction :
    tUnserializableObjectFromBlob transaction [1, 0, 0, 0, 0, 0] = some emptyTransaction ∧
    tUnserializableObjectFromBlob transaction [0x81, 0, 0, 0, 0, 0, 0] = some emptyTransaction ∧
    tUnserializableObjectFromBlob transaction [1, 0, 0, 0, 0] = some emptyTransaction := by
  decide

/-- Not every accepted transaction is written back as it came. -/
theorem wire_form_not_canonical :
    ¬ ∀ blob tx, tUnserializableObjectFromBlob transaction blob = some tx →
      tSerializableObjectToBlob transaction tx = blob := by
  intro h
  have hlong := h _ _ parse_emptyTransaction.2.1
  exact absurd hlong (by decide +kernel)

end Wire
end Chinet
