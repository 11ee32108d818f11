import Chinet.FormatUtils
import Chinet.Payload.Items

/-!
# What is read of an encrypted item

The visitors as functions.  Both sides come to the same keys, so what a reader is given of a
service attachment depends on the flags, on whether the reader has the spend key of the recipient,
and on the `security` that `construct_tx` leaves.
-/

namespace Chinet

namespace CurveOps

variable {P : Type} [AddCommGroup P] {ops : CurveOps P}

/-- What `generate_key_derivation` makes of two pairs. -/
def KeyPair.derivation (keys keys' : ops.KeyPair) : KeyDerivation :=
  ops.toBytes (8 • (keys'.sec.toNat • keys.sec.toNat • ops.base))

theorem KeyPair.derivation_comm (keys keys' : ops.KeyPair) :
    keys.derivation keys' = keys'.derivation keys := by
  rw [derivation, derivation, smul_comm keys'.sec.toNat keys.sec.toNat]

end CurveOps

namespace Payload

open PartialSteps

theorem Run.ok_bind {α β : Type} (a : α) (f : α → Run β) : ((.ok a : Run α) >>= f) = f a := rfl

variable {P : Type} [AddCommGroup P] {ops : Ops P}

/-- An account, with the keys of its address; a wallet that only watches has no spend key. -/
structure Account (ops : Ops P) where
  spend : ops.KeyPair
  view : ops.KeyPair
  flags : UInt8
  watchOnly : Bool

def Account.keys (account : Account ops) : AccountKeys where
  accountAddress := ⟨account.spend.pub, account.view.pub, account.flags⟩
  spendSecretKey := if account.watchOnly then nullSkey else account.spend.sec
  viewSecretKey := account.view.sec

/-! ## Ciphers -/

theorem chachaCrypt_chachaCrypt (pass buff : ByteString) :
    ops.chachaCrypt pass (ops.chachaCrypt pass buff) = buff :=
  Keystream.crypt_crypt 0 buff

theorem length_chachaCrypt (pass buff : ByteString) :
    (ops.chachaCrypt pass buff).length = buff.length :=
  Keystream.length_crypt 0 buff

theorem chachaCryptPod_chachaCryptPod {α : Type} {pod : Codec α} {n : Nat} (hpod : pod.IsPod n)
    (pass : ByteString) (value : α) :
    ops.chachaCryptPod pod pass (ops.chachaCryptPod pod pass value) = value := by
  have hlength : (ops.chachaCrypt pass (pod.write value)).length = n := by
    rw [length_chachaCrypt, hpod.length_write]
  obtain ⟨crypted, hparse, hwrite⟩ := hpod.exists_parse hlength
  have hfirst : ops.chachaCryptPod pod pass value = crypted := by
    rw [Ops.chachaCryptPod, hparse, Option.getD_some]
  rw [hfirst, Ops.chachaCryptPod, hwrite, chachaCrypt_chachaCrypt, hpod.parse_write,
    Option.getD_some]

theorem isPod_keyDerivation : Wire.keyDerivation.IsPod 32 := isPod_serializeBlob 32

theorem isPod_accountPublicAddressOld : Wire.accountPublicAddressOld.IsPod (32 + 32) :=
  ((isPod_serializeBlob 32).pair (isPod_serializeBlob 32)).map _ fun _ => rfl

theorem isPod_accountPublicAddress : Wire.accountPublicAddress.IsPod (32 + (32 + 1)) :=
  ((isPod_serializeBlob 32).pair ((isPod_serializeBlob 32).pair Codec.isPod_byte)).map _
    fun _ => rfl

/-! ## Keys -/

theorem derivation_ne_null (keys keys' : ops.KeyPair) : keys.derivation keys' ≠ nullDerivation :=
  ops.toBytes_ne_null _

theorem pub_ne_null (keys : ops.KeyPair) : keys.pub ≠ nullPkey := by
  rw [keys.eq.2]
  exact ops.toBytes_ne_null _

theorem generateKeyDerivation_pair (keys keys' : ops.KeyPair) :
    orUndefined (ops.generateKeyDerivation keys.pub keys'.sec) =
      .ok (some (keys.derivation keys')) := by
  rw [CurveOps.generateKeyDerivation_eq]
  rfl

theorem derivationLocal_pair {isolated : Bool} (keys : ops.KeyPair) {sec : SecretKey}
    {keys' : ops.KeyPair} (hsec : isolated = true → sec = keys'.sec ∧ sec ≠ nullSkey)
    (key : KeyDerivation) :
    ops.derivationLocal isolated keys.pub sec key =
      .ok (if isolated then keys.derivation keys' else key) := by
  cases isolated with
  | false => rfl
  | true =>
      obtain ⟨rfl, hnull⟩ := hsec rfl
      rw [Ops.derivationLocal, if_pos rfl, if_pos rfl, Ops.isolatedDerivation,
        if_neg (not_or.mpr ⟨pub_ne_null keys, hnull⟩), generateKeyDerivation_pair, Run.ok_bind]
      rfl

/-- The visitor has thrown if the key of the transaction is null. -/
theorem derivationLocal_ok {isolated : Bool} {keys keys' : ops.KeyPair}
    {key derivation : KeyDerivation}
    (h : ops.derivationLocal isolated keys.pub keys'.sec key = .ok derivation) :
    derivation = if isolated then keys.derivation keys' else key := by
  have hsec : isolated = true → keys'.sec = keys'.sec ∧ keys'.sec ≠ nullSkey := by
    rintro rfl
    refine ⟨rfl, fun hnull => ?_⟩
    rw [Ops.derivationLocal, if_pos rfl, Ops.isolatedDerivation, if_pos (Or.inr hnull)] at h
    cases h
  exact Except.ok.inj (h.symm.trans (derivationLocal_pair keys hsec key))

/-! ## The encrypted items -/

section

variable (recipient : Account ops) (txKey : ops.KeyPair)

/-- The key of the items. -/
def commonKey : KeyDerivation := recipient.view.derivation txKey

/-- The key of the body of a service attachment. -/
def bodyKey (sa : ServiceAttachment) : KeyDerivation :=
  if isolatesAuditable sa then recipient.spend.derivation txKey else commonKey recipient txKey

/-- The proof of a service attachment. -/
def proof (sa : ServiceAttachment) : PublicKey :=
  ops.proofHash sa.body (bodyKey recipient txKey sa)

def deflated (ops : Ops P) (sa : ServiceAttachment) : ByteString :=
  if deflatesBody sa then ops.packed sa.body else sa.body

def encoded (sa : ServiceAttachment) : ServiceAttachment :=
  { sa with
    body :=
      if encryptsBody sa then
        ops.chachaCrypt (podBytes (bodyKey recipient txKey sa)) (deflated ops sa)
      else deflated ops sa
    security :=
      if encryptsBody sa && addsProof sa then sa.security ++ [proof recipient txKey sa]
      else sa.security }

def encodedItem : Item → Item
  | .comment comment => .comment (ops.chachaCrypt (podBytes (commonKey recipient txKey)) comment)
  | .payer accAddr =>
      .payer (ops.chachaCryptPod Wire.accountPublicAddress (podBytes (commonKey recipient txKey))
        accAddr)
  | .receiver accAddr =>
      .receiver (ops.chachaCryptPod Wire.accountPublicAddress (podBytes (commonKey recipient txKey))
        accAddr)
  | .payerOld accAddr =>
      .payerOld (ops.chachaCryptPod Wire.accountPublicAddressOld
        (podBytes (commonKey recipient txKey)) accAddr)
  | .receiverOld accAddr =>
      .receiverOld (ops.chachaCryptPod Wire.accountPublicAddressOld
        (podBytes (commonKey recipient txKey)) accAddr)
  | .serviceAttachment sa => .serviceAttachment (encoded recipient txKey sa)
  | item => item

/-- The items that `encrypt_attach_visitor` encrypts. -/
def isCrypted : Item → Bool
  | .comment _ => true
  | .payer _ => true
  | .receiver _ => true
  | .payerOld _ => true
  | .receiverOld _ => true
  | .serviceAttachment sa => encryptsBody sa
  | _ => false

variable {recipient txKey}

theorem encryptServiceAttachment_ok {sa : ServiceAttachment} {r : ServiceAttachment × Bool}
    (h : ops.encryptServiceAttachment (commonKey recipient txKey) txKey.sec
      recipient.keys.accountAddress sa = .ok r) :
    r = (encoded recipient txKey sa, encryptsBody sa) := by
  unfold Ops.encryptServiceAttachment at h
  unfold encoded deflated
  cases hencrypts : encryptsBody sa with
  | false =>
      simp only [hencrypts, Bool.not_false, if_true] at h
      exact (Except.ok.inj h).symm
  | true =>
      simp only [hencrypts, Bool.not_true, Bool.false_eq_true, if_false] at h
      obtain ⟨derivation, hderivation, hr⟩ := bind_eq_ok.mp h
      have hkey : derivation = bodyKey recipient txKey sa := derivationLocal_ok hderivation
      rw [hkey] at hr
      exact (Except.ok.inj hr).symm

theorem encryptItem_ok {item : Item} {r : Item × Bool}
    (h : ops.encryptItem (commonKey recipient txKey) txKey.sec recipient.keys.accountAddress item =
      .ok r) :
    r = (encodedItem recipient txKey item, isCrypted item) := by
  cases item with
  | serviceAttachment sa =>
      obtain ⟨⟨sa', crypted⟩, hsa, hr⟩ := bind_eq_ok.mp h
      have hvisited := encryptServiceAttachment_ok hsa
      rw [Prod.mk.injEq] at hvisited
      rw [← Except.ok.inj hr, hvisited.1, hvisited.2]
      rfl
  | _ => exact (Except.ok.inj h).symm

theorem encryptItems_ok {items : List Item} {r : List Item × Bool}
    (h : ops.encryptItems (commonKey recipient txKey) txKey.sec recipient.keys.accountAddress
      items = .ok r) :
    r = (items.map (encodedItem recipient txKey), items.any isCrypted) := by
  induction items generalizing r with
  | nil => exact (Except.ok.inj h).symm
  | cons item rest ih =>
      obtain ⟨first, hfirst, h⟩ := bind_eq_ok.mp h
      obtain ⟨others, hothers, hr⟩ := bind_eq_ok.mp h
      rw [encryptItem_ok hfirst, ih hothers] at hr
      exact (Except.ok.inj hr).symm

/-! ## The items that are read -/

variable (recipient txKey)

/-- What is read of a service attachment, with the spend key of the recipient or without. -/
def readService (canSpend : Bool) (sa : ServiceAttachment) : Option ServiceAttachment :=
  if encryptsBody sa && isolatesAuditable sa && !canSpend then none
  else
    let body :=
      if encryptsBody sa then ops.chachaCrypt (podBytes (bodyKey recipient txKey sa)) sa.body
      else sa.body
    let body := if deflatesBody sa then ops.unpacked body else body
    if encryptsBody sa && addsProof sa &&
        sa.security != [ops.proofHash body (bodyKey recipient txKey sa)] then none
    else some { sa with body }

def readItem (canSpend : Bool) : Item → Option Item
  | .serviceAttachment sa => (readService recipient txKey canSpend sa).map .serviceAttachment
  | item => some (encodedItem recipient txKey item)

variable {recipient txKey}

theorem decryptServiceAttachment_eq {accKeys : AccountKeys} {canSpend : Bool}
    (hspend : accKeys.spendSecretKey = if canSpend then recipient.spend.sec else nullSkey)
    (hsec : canSpend = true → recipient.spend.sec ≠ nullSkey) (sa : ServiceAttachment) :
    ops.decryptServiceAttachment (commonKey recipient txKey) accKeys txKey.pub sa =
      .ok (readService recipient txKey canSpend sa) := by
  have hnull : (accKeys.spendSecretKey == nullSkey) = !canSpend := by
    cases canSpend with
    | false => simpa using hspend
    | true => simpa [hspend] using hsec rfl
  unfold Ops.decryptServiceAttachment readService
  rw [hnull]
  cases hhidden : encryptsBody sa && isolatesAuditable sa && !canSpend with
  | true => rfl
  | false =>
      have hisolated : (encryptsBody sa && isolatesAuditable sa) = true →
          accKeys.spendSecretKey = recipient.spend.sec ∧ accKeys.spendSecretKey ≠ nullSkey := by
        intro h
        have hcan : canSpend = true := by simpa [h] using hhidden
        rw [hspend, if_pos hcan]
        exact ⟨rfl, hsec hcan⟩
      simp only [Bool.false_eq_true, if_false]
      rw [derivationLocal_pair txKey hisolated, Run.ok_bind, CurveOps.KeyPair.derivation_comm]
      unfold bodyKey
      cases encryptsBody sa with
      | false => simp; rfl
      | true =>
          simp only [Bool.true_and, if_true]
          split_ifs <;> rfl

theorem decryptItem_eq {accKeys : AccountKeys} {canSpend : Bool}
    (hspend : accKeys.spendSecretKey = if canSpend then recipient.spend.sec else nullSkey)
    (hsec : canSpend = true → recipient.spend.sec ≠ nullSkey) (item : Item) :
    ops.decryptItem (commonKey recipient txKey) accKeys txKey.pub item =
      .ok (readItem recipient txKey canSpend item) := by
  cases item with
  | serviceAttachment sa =>
      change (ops.decryptServiceAttachment (commonKey recipient txKey) accKeys txKey.pub sa >>=
        fun sa? => pure (sa?.map Wire.PayloadItem.serviceAttachment)) = _
      rw [decryptServiceAttachment_eq hspend hsec]
      rfl
  | _ => rfl

theorem decryptItems_eq {accKeys : AccountKeys} {canSpend : Bool}
    (hspend : accKeys.spendSecretKey = if canSpend then recipient.spend.sec else nullSkey)
    (hsec : canSpend = true → recipient.spend.sec ≠ nullSkey) (items : List Item) :
    ops.decryptItems (commonKey recipient txKey) accKeys txKey.pub items =
      .ok (items.filterMap (readItem recipient txKey canSpend)) := by
  induction items with
  | nil => rfl
  | cons item rest ih =>
      rw [Ops.decryptItems, decryptItem_eq hspend hsec, Run.ok_bind, ih, Run.ok_bind]
      cases hread : readItem recipient txKey canSpend item with
      | none =>
          rw [List.filterMap_cons_none hread]
          rfl
      | some read =>
          rw [List.filterMap_cons_some hread]
          rfl

end

end Payload
end Chinet
