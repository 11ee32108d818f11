import Chinet.Lib.Archive
import Chinet.CurrencyBasic

/-!
# The archive of currency data

The serializers of `currency_boost_serialization.h` and `crypto_boost_serialization.h`: which
fields of a transaction they list, in their order.  A transaction comes back whole whatever the
object held that it is loaded into.
-/

namespace Chinet

open Archive Archive.Layout

namespace BoostArchive

variable (a : Format)

/-! ## Pods -/

def pod {n : Nat} : Layout (BitVec n) := (number a).via BitVec.toNat (BitVec.ofNat n)

def uint8 : Layout UInt8 := (number a).via UInt8.toNat UInt8.ofNat

def uint64 : Layout UInt64 := (number a).via UInt64.toNat UInt64.ofNat

def bool : Layout Bool := (number a).via Bool.toNat (· != 0)

@[simp] theorem pod_loaded {n : Nat} (memory x : BitVec n) : (pod a).loaded memory x = x := by
  simp [pod]

@[simp] theorem uint8_loaded (memory x : UInt8) : (uint8 a).loaded memory x = x := by
  simp [uint8]

@[simp] theorem uint64_loaded (memory x : UInt64) : (uint64 a).loaded memory x = x := by
  simp [uint64]

@[simp] theorem bool_loaded (memory x : Bool) : (bool a).loaded memory x = x := by
  cases x <;> rfl

/-! ## Addresses -/

def newAddress : AccountPublicAddress := { spendPublicKey := 0, viewPublicKey := 0, flags := 0 }

def accountPublicAddress : Layout AccountPublicAddress :=
  nothing
    |>.field (·.flags) (fun v x => { x with flags := v }) (uint8 a)
    |>.field (·.spendPublicKey) (fun v x => { x with spendPublicKey := v }) (pod a)
    |>.field (·.viewPublicKey) (fun v x => { x with viewPublicKey := v }) (pod a)

@[simp] theorem accountPublicAddress_loaded (memory x : AccountPublicAddress) :
    (accountPublicAddress a).loaded memory x = x := by
  simp [accountPublicAddress]

/-! ## Inputs and outputs -/

def extraAttachmentInfo : Layout ExtraAttachmentInfo :=
  nothing
    |>.field (·.hsh) (fun v x => { x with hsh := v }) (pod a)
    |>.field (·.sz) (fun v x => { x with sz := v }) (number a)
    |>.field (·.cnt) (fun v x => { x with cnt := v }) (number a)

@[simp] theorem extraAttachmentInfo_loaded (memory x : ExtraAttachmentInfo) :
    (extraAttachmentInfo a).loaded memory x = x := by
  simp [extraAttachmentInfo]

/-- `signed_parts` or `extra_attachment_info`. -/
def txinEtcDetails : Layout TxinEtcDetails :=
  (sum a (0, 0) ⟨0, 0, 0⟩ (pair (number a) (number a)) (extraAttachmentInfo a)).via
    (fun
      | .signedParts nOuts nExtras => .inl (nOuts, nExtras)
      | .attachmentInfo info => .inr info)
    (fun
      | .inl (nOuts, nExtras) => .signedParts nOuts nExtras
      | .inr info => .attachmentInfo info)

@[simp] theorem txinEtcDetails_loaded (memory x : TxinEtcDetails) :
    (txinEtcDetails a).loaded memory x = x := by
  cases x <;> simp [txinEtcDetails]

/-- A `uint64_t` or `ref_by_id`. -/
def txoutRef : Layout TxoutRef :=
  (sum a 0 (0, 0) (uint64 a) (pair (pod a) (number a))).via
    (fun
      | .globalIndex index => .inl index
      | .refById txId n => .inr (txId, n))
    (fun
      | .inl index => .globalIndex index
      | .inr (txId, n) => .refById txId n)

@[simp] theorem txoutRef_loaded (memory x : TxoutRef) : (txoutRef a).loaded memory x = x := by
  cases x <;> simp [txoutRef]

def newEtcDetails : TxinEtcDetails := .signedParts 0 0

def txinToKey : Layout TxinToKey :=
  nothing
    |>.field (·.amount) (fun v x => { x with amount := v }) (uint64 a)
    |>.field (·.keyOffsets) (fun v x => { x with keyOffsets := v })
      (list a (.globalIndex 0) (txoutRef a))
    |>.field (·.kImage) (fun v x => { x with kImage := v }) (pod a)
    |>.field (·.etcDetails) (fun v x => { x with etcDetails := v })
      (list a newEtcDetails (txinEtcDetails a))

@[simp] theorem txinToKey_loaded (memory x : TxinToKey) : (txinToKey a).loaded memory x = x := by
  simp [txinToKey]

def txinMultisig : Layout TxinMultisig :=
  nothing
    |>.field (·.amount) (fun v x => { x with amount := v }) (uint64 a)
    |>.field (·.multisigOutId) (fun v x => { x with multisigOutId := v }) (pod a)
    |>.field (·.sigsCount) (fun v x => { x with sigsCount := v }) (number a)
    |>.field (·.etcDetails) (fun v x => { x with etcDetails := v })
      (list a newEtcDetails (txinEtcDetails a))

@[simp] theorem txinMultisig_loaded (memory x : TxinMultisig) :
    (txinMultisig a).loaded memory x = x := by
  simp [txinMultisig]

def txinHtlc : Layout TxinHtlc :=
  nothing
    |>.field (·.amount) (fun v x => { x with amount := v }) (uint64 a)
    |>.field (·.etcDetails) (fun v x => { x with etcDetails := v })
      (list a newEtcDetails (txinEtcDetails a))
    |>.field (·.hltcOrigin) (fun v x => { x with hltcOrigin := v }) (text a)
    |>.field (·.kImage) (fun v x => { x with kImage := v }) (pod a)
    |>.field (·.keyOffsets) (fun v x => { x with keyOffsets := v })
      (list a (.globalIndex 0) (txoutRef a))

@[simp] theorem txinHtlc_loaded (memory x : TxinHtlc) : (txinHtlc a).loaded memory x = x := by
  simp [txinHtlc]

def newTxinToKey : TxinToKey := { amount := 0, keyOffsets := [], kImage := 0, etcDetails := [] }

def newTxinMultisig : TxinMultisig :=
  { amount := 0, multisigOutId := 0, sigsCount := 0, etcDetails := [] }

/-- `txin_v`. -/
def txin : Layout Txin :=
  (sum a 0 (.inl newTxinToKey) (number a)
    (sum a newTxinToKey (.inl newTxinMultisig) (txinToKey a)
      (sum a newTxinMultisig { newTxinToKey with hltcOrigin := [] } (txinMultisig a)
        (txinHtlc a)))).via
    (fun
      | .gen height => .inl height
      | .toKey input => .inr (.inl input)
      | .multisig input => .inr (.inr (.inl input))
      | .htlc input => .inr (.inr (.inr input)))
    (fun
      | .inl height => .gen height
      | .inr (.inl input) => .toKey input
      | .inr (.inr (.inl input)) => .multisig input
      | .inr (.inr (.inr input)) => .htlc input)

@[simp] theorem txin_loaded (memory x : Txin) : (txin a).loaded memory x = x := by
  cases x <;> simp [txin]

def txoutToKey : Layout TxoutToKey :=
  nothing
    |>.field (·.key) (fun v x => { x with key := v }) (pod a)
    |>.field (·.mixAttr) (fun v x => { x with mixAttr := v }) (uint8 a)

@[simp] theorem txoutToKey_loaded (memory x : TxoutToKey) :
    (txoutToKey a).loaded memory x = x := by
  simp [txoutToKey]

def txoutMultisig : Layout TxoutMultisig :=
  nothing
    |>.field (·.minimumSigs) (fun v x => { x with minimumSigs := v }) (number a)
    |>.field (·.keys) (fun v x => { x with keys := v }) (list a 0 (pod a))

@[simp] theorem txoutMultisig_loaded (memory x : TxoutMultisig) :
    (txoutMultisig a).loaded memory x = x := by
  simp [txoutMultisig]

def txoutHtlc : Layout TxoutHtlc :=
  nothing
    |>.field (·.expiration) (fun v x => { x with expiration := v }) (number a)
    |>.field (·.flags) (fun v x => { x with flags := v }) (uint8 a)
    |>.field (·.htlcHash) (fun v x => { x with htlcHash := v }) (pod a)
    |>.field (·.pkeyRedeem) (fun v x => { x with pkeyRedeem := v }) (pod a)
    |>.field (·.pkeyRefund) (fun v x => { x with pkeyRefund := v }) (pod a)

@[simp] theorem txoutHtlc_loaded (memory x : TxoutHtlc) : (txoutHtlc a).loaded memory x = x := by
  simp [txoutHtlc]

def newTxoutToKey : TxoutToKey := { key := 0, mixAttr := 0 }

def newTxoutHtlc : TxoutHtlc :=
  { htlcHash := 0, flags := 0, expiration := 0, pkeyRedeem := 0, pkeyRefund := 0 }

/-- `txout_target_v`. -/
def txoutTarget : Layout TxoutTarget :=
  (sum a newTxoutToKey (.inl ⟨0, []⟩) (txoutToKey a)
    (sum a ⟨0, []⟩ newTxoutHtlc (txoutMultisig a) (txoutHtlc a))).via
    (fun
      | .toKey out => .inl out
      | .multisig out => .inr (.inl out)
      | .htlc out => .inr (.inr out))
    (fun
      | .inl out => .toKey out
      | .inr (.inl out) => .multisig out
      | .inr (.inr out) => .htlc out)

@[simp] theorem txoutTarget_loaded (memory x : TxoutTarget) :
    (txoutTarget a).loaded memory x = x := by
  cases x <;> simp [txoutTarget]

def txOut : Layout TxOut :=
  nothing
    |>.field (·.amount) (fun v x => { x with amount := v }) (uint64 a)
    |>.field (·.target) (fun v x => { x with target := v }) (txoutTarget a)

@[simp] theorem txOut_loaded (memory x : TxOut) : (txOut a).loaded memory x = x := by
  simp [txOut]

/-! ## Extra and attachments -/

def extraAliasEntry : Layout ExtraAliasEntry :=
  nothing
    |>.field (·.mAlias) (fun v x => { x with mAlias := v }) (text a)
    |>.field (·.mAddress) (fun v x => { x with mAddress := v }) (accountPublicAddress a)
    |>.field (·.mTextComment) (fun v x => { x with mTextComment := v }) (text a)
    |>.field (·.mViewKey) (fun v x => { x with mViewKey := v }) (list a 0 (pod a))
    |>.field (·.mSign) (fun v x => { x with mSign := v }) (list a 0 (pod a))

@[simp] theorem extraAliasEntry_loaded (memory x : ExtraAliasEntry) :
    (extraAliasEntry a).loaded memory x = x := by
  simp [extraAliasEntry]

def newAliasEntry : ExtraAliasEntry :=
  { mAlias := [], mAddress := newAddress, mTextComment := [], mViewKey := [], mSign := [] }

/-- The alternatives of `payload_items_v` that hold a text, with those that no function tells
apart; the others hold a number, an address, or a record of their own. -/
abbrev PayloadParts :=
  (PublicKey ⊕ ExtraAttachmentInfo) ⊕ (ExtraAliasEntry ⊕ ExtraAliasEntry) ⊕
    (ByteString ⊕ ByteString) ⊕ ((Nat ⊕ Nat) ⊕ (List Nat ⊕ Nat ⊕ Nat)) ⊕
      (AccountPublicAddress ⊕ AccountPublicAddress) ⊕ (Nat × ByteString)

def payloadParts : PayloadItem → PayloadParts
  | .publicKey key => .inl (.inl key)
  | .attachmentInfo info => .inl (.inr info)
  | .aliasEntryOld entry => .inr (.inl (.inl entry))
  | .aliasEntry entry => .inr (.inl (.inr entry))
  | .userData buff => .inr (.inr (.inl (.inl buff)))
  | .padding buff => .inr (.inr (.inl (.inr buff)))
  | .txTime v => .inr (.inr (.inr (.inl (.inl (.inl v)))))
  | .unlockTime v => .inr (.inr (.inr (.inl (.inl (.inr v)))))
  | .unlockTime2 vs => .inr (.inr (.inr (.inl (.inr (.inl vs)))))
  | .expirationTime v => .inr (.inr (.inr (.inl (.inr (.inr (.inl v))))))
  | .detailsFlags v => .inr (.inr (.inr (.inl (.inr (.inr (.inr v))))))
  | .payer accAddr => .inr (.inr (.inr (.inr (.inl (.inl accAddr)))))
  | .receiver accAddr => .inr (.inr (.inr (.inr (.inl (.inr accAddr)))))
  | .other tag body => .inr (.inr (.inr (.inr (.inr (tag, body)))))

def payloadOf : PayloadParts → PayloadItem
  | .inl (.inl key) => .publicKey key
  | .inl (.inr info) => .attachmentInfo info
  | .inr (.inl (.inl entry)) => .aliasEntryOld entry
  | .inr (.inl (.inr entry)) => .aliasEntry entry
  | .inr (.inr (.inl (.inl buff))) => .userData buff
  | .inr (.inr (.inl (.inr buff))) => .padding buff
  | .inr (.inr (.inr (.inl (.inl (.inl v))))) => .txTime v
  | .inr (.inr (.inr (.inl (.inl (.inr v))))) => .unlockTime v
  | .inr (.inr (.inr (.inl (.inr (.inl vs))))) => .unlockTime2 vs
  | .inr (.inr (.inr (.inl (.inr (.inr (.inl v)))))) => .expirationTime v
  | .inr (.inr (.inr (.inl (.inr (.inr (.inr v)))))) => .detailsFlags v
  | .inr (.inr (.inr (.inr (.inl (.inl accAddr))))) => .payer accAddr
  | .inr (.inr (.inr (.inr (.inl (.inr accAddr))))) => .receiver accAddr
  | .inr (.inr (.inr (.inr (.inr (tag, body))))) => .other tag body

/-- `payload_items_v`; each alternative lists all that it holds. -/
def payloadItem : Layout PayloadItem :=
  (sum a (.inl 0) (.inl (.inl newAliasEntry)) (sum a 0 ⟨0, 0, 0⟩ (pod a) (extraAttachmentInfo a))
    (sum a (.inl newAliasEntry) (.inl (.inl []))
      (sum a newAliasEntry newAliasEntry (extraAliasEntry a) (extraAliasEntry a))
      (sum a (.inl []) (.inl (.inl (.inl 0))) (sum a [] [] (text a) (text a))
        (sum a (.inl (.inl 0)) (.inl (.inl newAddress))
          (sum a (.inl 0) (.inl []) (sum a 0 0 (number a) (number a))
            (sum a [] (.inl 0) (list a 0 (number a)) (sum a 0 0 (number a) (number a))))
          (sum a (.inl newAddress) (0, [])
            (sum a newAddress newAddress (accountPublicAddress a) (accountPublicAddress a))
            (pair (number a) (text a))))))).via payloadParts payloadOf

@[simp] theorem payloadItem_loaded (memory x : PayloadItem) :
    (payloadItem a).loaded memory x = x := by
  cases x <;> simp [payloadItem, payloadParts, payloadOf]

/-! ## Transactions -/

def newTxOut : TxOut := { amount := 0, target := .toKey newTxoutToKey }

def newTransaction : Transaction :=
  { version := 0, extra := [], vin := [], vout := [], signatures := [], attachment := [] }

def transaction : Layout Transaction :=
  nothing
    |>.field (·.version) (fun v x => { x with version := v }) (number a)
    |>.field (·.vin) (fun v x => { x with vin := v }) (list a (.gen 0) (txin a))
    |>.field (·.vout) (fun v x => { x with vout := v }) (list a newTxOut (txOut a))
    |>.field (·.extra) (fun v x => { x with extra := v }) (list a (.userData []) (payloadItem a))
    |>.field (·.signatures) (fun v x => { x with signatures := v }) (list a [] (list a 0 (pod a)))
    |>.field (·.attachment) (fun v x => { x with attachment := v })
      (list a (.userData []) (payloadItem a))

/-- A transaction comes back whole. -/
@[simp] theorem transaction_loaded (memory x : Transaction) :
    (transaction a).loaded memory x = x := by
  simp [transaction]

end BoostArchive

end Chinet
