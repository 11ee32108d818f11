import Chinet.Payload.Constructed

/-!
# What is read of an item

All items but the service attachments are read as they were.  Of a service attachment the body has
to come back from `zlib_helper`, and a proof has to be in its `security` still.
-/

namespace Chinet
namespace Payload

/-- An item without the field that `construct_tx` fills in. -/
def withoutSecurity : Item → Item
  | .serviceAttachment sa => .serviceAttachment { sa with security := [] }
  | item => item

/-- The item is meant for a reader with the spend key of the recipient, or without. -/
def isFor (canSpend : Bool) : Item → Bool
  | .serviceAttachment sa => !(encryptsBody sa && isolatesAuditable sa && !canSpend)
  | _ => true

variable {P : Type} [AddCommGroup P] {ops : Ops P}

section

variable (recipient : Account ops) (txKey : ops.KeyPair) (key : Nat → PublicKey)
  (crypted canSpend : Bool)

/-- The item in the transaction, by its place in the attachments if it is one of them. -/
def finalItem (e : Item × Option Nat) : Item :=
  match e.2 with
  | none => encodedItem recipient txKey e.1
  | some n => secured (key n) (encodedItem recipient txKey e.1)

/-- What is read of an item of the transaction, apart from its `security`. -/
def given (item : Item) : Option Item :=
  (if crypted then readItem recipient txKey canSpend item else some item).map withoutSecurity

/-- What is read of an original item. -/
def returned (e : Item × Option Nat) : Option Item :=
  given recipient txKey crypted canSpend (finalItem recipient txKey key e)

variable {recipient txKey key crypted canSpend}

theorem ctorIdx_encodedItem (item : Item) :
    (encodedItem recipient txKey item).ctorIdx = item.ctorIdx := by
  unfold encodedItem
  cases item <;> simp only [Wire.PayloadItem.ctorIdx]

theorem ctorIdx_secured (key : PublicKey) (item : Item) :
    (secured key item).ctorIdx = item.ctorIdx := by
  unfold secured
  cases item <;> simp only [Wire.PayloadItem.ctorIdx]

theorem secured_of_ne_service {key : PublicKey} {item : Item} (hkind : item.ctorIdx ≠ 0) :
    secured key item = item := by
  unfold secured
  cases item with
  | serviceAttachment sa => exact absurd rfl hkind
  | _ => simp only

theorem ctorIdx_withoutSecurity (item : Item) :
    (withoutSecurity item).ctorIdx = item.ctorIdx := by
  unfold withoutSecurity
  cases item <;> simp only [Wire.PayloadItem.ctorIdx]

theorem ctorIdx_finalItem (e : Item × Option Nat) :
    (finalItem recipient txKey key e).ctorIdx = e.1.ctorIdx := by
  obtain ⟨item, place⟩ := e
  cases place with
  | none => exact ctorIdx_encodedItem item
  | some n => exact (ctorIdx_secured _ _).trans (ctorIdx_encodedItem item)

theorem ctorIdx_of_given {item item' : Item}
    (h : given recipient txKey crypted canSpend item = some item') :
    item'.ctorIdx = item.ctorIdx := by
  obtain ⟨read, hread, rfl⟩ := Option.map_eq_some_iff.mp h
  have hkind : read.ctorIdx = item.ctorIdx := by
    cases crypted with
    | false => rw [Option.some.inj hread]
    | true =>
        rw [if_pos rfl] at hread
        cases item with
        | serviceAttachment sa =>
            obtain ⟨sa', -, rfl⟩ := Option.map_eq_some_iff.mp hread
            simp only [Wire.PayloadItem.ctorIdx]
        | _ =>
            rw [← Option.some.inj hread]
            exact ctorIdx_encodedItem _
  rw [ctorIdx_withoutSecurity, hkind]

theorem ctorIdx_of_returned {e : Item × Option Nat} {item : Item}
    (h : returned recipient txKey key crypted canSpend e = some item) :
    item.ctorIdx = e.1.ctorIdx :=
  (ctorIdx_of_given h).trans (ctorIdx_finalItem e)

/-- All but the service attachments are read as they were. -/
theorem returned_of_ne_service {e : Item × Option Nat} (hkind : e.1.ctorIdx ≠ 0)
    (hcrypted : isCrypted e.1 = true → crypted = true) :
    returned recipient txKey key crypted canSpend e = some e.1 := by
  obtain ⟨item, place⟩ := e
  have hfinal : finalItem recipient txKey key (item, place) = encodedItem recipient txKey item := by
    cases place with
    | none => rfl
    | some n => exact secured_of_ne_service (by rwa [ctorIdx_encodedItem])
  rw [returned, hfinal]
  cases item with
  | serviceAttachment sa => exact absurd rfl hkind
  | comment comment =>
      simp [given, hcrypted rfl, readItem, encodedItem, chachaCrypt_chachaCrypt, withoutSecurity]
  | payer accAddr =>
      simp [given, hcrypted rfl, readItem, encodedItem,
        chachaCryptPod_chachaCryptPod isPod_accountPublicAddress, withoutSecurity]
  | receiver accAddr =>
      simp [given, hcrypted rfl, readItem, encodedItem,
        chachaCryptPod_chachaCryptPod isPod_accountPublicAddress, withoutSecurity]
  | payerOld accAddr =>
      simp [given, hcrypted rfl, readItem, encodedItem,
        chachaCryptPod_chachaCryptPod isPod_accountPublicAddressOld, withoutSecurity]
  | receiverOld accAddr =>
      simp [given, hcrypted rfl, readItem, encodedItem,
        chachaCryptPod_chachaCryptPod isPod_accountPublicAddressOld, withoutSecurity]
  | _ => cases crypted <;> rfl

/-- The `security` that a service attachment has in the transaction. -/
def finalSecurity (recipient : Account ops) (txKey : ops.KeyPair) (key : Nat → PublicKey)
    (sa : ServiceAttachment) : Option Nat → List PublicKey
  | none => (encoded recipient txKey sa).security
  | some n => if (encoded recipient txKey sa).security = [] then [] else [key n]

theorem finalItem_service (sa : ServiceAttachment) (place : Option Nat) :
    finalItem recipient txKey key (.serviceAttachment sa, place) =
      .serviceAttachment { encoded recipient txKey sa with
        security := finalSecurity recipient txKey key sa place } := by
  cases place with
  | none => rfl
  | some n => rfl

/-- What is read of the body. -/
def inflated (ops : Ops P) (sa : ServiceAttachment) : ByteString :=
  if deflatesBody sa then ops.unpacked (ops.packed sa.body) else sa.body

theorem readService_encoded {sa : ServiceAttachment} (security : List PublicKey)
    (hfor : isFor canSpend (.serviceAttachment sa) = true) :
    readService recipient txKey canSpend { encoded recipient txKey sa with security } =
      if encryptsBody sa && addsProof sa &&
          security != [ops.proofHash (inflated ops sa) (bodyKey recipient txKey sa)] then none
      else some { sa with
        body := inflated ops sa
        security } := by
  have hvisible : ¬ (encryptsBody sa && isolatesAuditable sa && !canSpend) = true := by
    rw [Bool.not_eq_true]
    simpa only [isFor, Bool.not_eq_true'] using hfor
  have hbody : (if deflatesBody sa then ops.unpacked
      (if encryptsBody sa then ops.chachaCrypt (podBytes (bodyKey recipient txKey sa))
        (encoded recipient txKey sa).body else (encoded recipient txKey sa).body)
      else if encryptsBody sa then ops.chachaCrypt (podBytes (bodyKey recipient txKey sa))
        (encoded recipient txKey sa).body else (encoded recipient txKey sa).body) =
      inflated ops sa := by
    unfold encoded deflated inflated
    cases encryptsBody sa <;> cases deflatesBody sa <;> simp [chachaCrypt_chachaCrypt]
  rw [← hbody]
  exact if_neg hvisible

theorem returned_of_not_isFor {sa : ServiceAttachment} {place : Option Nat}
    (hfor : isFor canSpend (.serviceAttachment sa) = false) :
    returned recipient txKey key true canSpend (.serviceAttachment sa, place) = none := by
  have hhidden : (encryptsBody sa && isolatesAuditable sa && !canSpend) = true := by
    simpa only [isFor, Bool.not_eq_false'] using hfor
  have hread : readService recipient txKey canSpend { encoded recipient txKey sa with
      security := finalSecurity recipient txKey key sa place } = none := if_pos hhidden
  rw [returned, finalItem_service, given, if_pos rfl, readItem, hread]
  rfl

theorem some_withoutSecurity_iff {sa : ServiceAttachment} {body : ByteString} :
    some (withoutSecurity (.serviceAttachment { sa with body })) =
        some (withoutSecurity (.serviceAttachment sa)) ↔ body = sa.body := by
  constructor
  · intro h
    simp only [withoutSecurity, Option.some.injEq, Wire.PayloadItem.serviceAttachment.injEq] at h
    exact congrArg Wire.TxServiceAttachment.body h
  · rintro rfl
    rfl

theorem deflated_eq_iff {sa : ServiceAttachment} :
    deflated ops sa = sa.body ↔ (deflatesBody sa = true → ops.packed sa.body = sa.body) := by
  unfold deflated
  cases deflatesBody sa <;> simp

theorem inflated_eq_iff {sa : ServiceAttachment} :
    inflated ops sa = sa.body ↔
      (deflatesBody sa = true → ops.unpacked (ops.packed sa.body) = sa.body) := by
  unfold inflated
  cases deflatesBody sa <;> simp

/-- Which service attachments come back to a reader they are meant for. -/
theorem returned_service_iff {sa : ServiceAttachment} {place : Option Nat}
    (hfor : isFor canSpend (.serviceAttachment sa) = true)
    (hcrypted : encryptsBody sa = true → crypted = true) :
    returned recipient txKey key crypted canSpend (.serviceAttachment sa, place) =
        some (withoutSecurity (.serviceAttachment sa)) ↔
      (deflatesBody sa = true →
        (if crypted then ops.unpacked (ops.packed sa.body) else ops.packed sa.body) = sa.body) ∧
      (encryptsBody sa = true → addsProof sa = true →
        finalSecurity recipient txKey key sa place = [proof recipient txKey sa]) := by
  rw [returned, finalItem_service]
  cases crypted with
  | false =>
      have hplain : encryptsBody sa = false := by
        rw [← Bool.not_eq_true]
        exact fun h => Bool.false_ne_true (hcrypted h)
      have hbody : (encoded recipient txKey sa).body = deflated ops sa := by
        simp [encoded, hplain]
      have hread : given recipient txKey false canSpend (.serviceAttachment
          { encoded recipient txKey sa with
            security := finalSecurity recipient txKey key sa place }) =
          some (withoutSecurity (.serviceAttachment { sa with body := deflated ops sa })) := by
        rw [← hbody]
        rfl
      rw [hread, some_withoutSecurity_iff, hplain, deflated_eq_iff]
      simp
  | true =>
      rw [given, if_pos rfl, readItem, readService_encoded _ hfor]
      by_cases hproof : encryptsBody sa = true ∧ addsProof sa = true
      · obtain ⟨hencrypts, hadds⟩ := hproof
        by_cases hbody : inflated ops sa = sa.body
        · have hhash : ops.proofHash (inflated ops sa) (bodyKey recipient txKey sa) =
              proof recipient txKey sa := by
            rw [hbody]
            rfl
          by_cases hsecurity : finalSecurity recipient txKey key sa place =
              [proof recipient txKey sa]
          · rw [hhash, hsecurity, if_neg (by simp), hbody]
            simp [withoutSecurity, ← inflated_eq_iff, hbody]
          · rw [hhash, if_pos (by simp [hencrypts, hadds, hsecurity])]
            simp [hencrypts, hadds, hsecurity]
        · have hreturns := inflated_eq_iff.not.mp hbody
          constructor
          · intro hsome
            split at hsome
            · cases hsome
            · have hsame : inflated ops sa = sa.body := some_withoutSecurity_iff.mp hsome
              exact absurd hsame hbody
          · exact fun h => absurd h.1 hreturns
      · have hunproved : (encryptsBody sa && addsProof sa) = false := by
          simpa using hproof
        rw [hunproved, if_neg (by simp)]
        change some (withoutSecurity (.serviceAttachment { sa with body := inflated ops sa })) = _ ↔
          _
        rw [some_withoutSecurity_iff, inflated_eq_iff]
        simp only [if_true]
        constructor
        · exact fun h => ⟨h, fun hencrypts hadds => absurd ⟨hencrypts, hadds⟩ hproof⟩
        · exact fun h => h.1

end

end Payload
end Chinet
