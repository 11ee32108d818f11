import Chinet.Payload.Encoding

/-!
# The lists of a constructed transaction

`construct_tx` writes some fields of the extra over the items that are there, puts items of its own
behind, and fills in the `security` of the service attachments.
-/

namespace Chinet
namespace Payload

open PartialSteps

variable {P : Type} [AddCommGroup P] {ops : Ops P}

/-! ## Fields of the extra -/

theorem filter_updateOrAddFieldToExtra (v : Item) (k : Nat) (extra : List Item) :
    (Ops.updateOrAddFieldToExtra v extra).filter (fun item => item.ctorIdx = k) =
      if v.ctorIdx = k then v :: (extra.filter fun item => item.ctorIdx = k).tail
      else extra.filter fun item => item.ctorIdx = k := by
  induction extra with
  | nil => by_cases hk : v.ctorIdx = k <;> simp [Ops.updateOrAddFieldToExtra, hk]
  | cons ev rest ih =>
      rw [Ops.updateOrAddFieldToExtra]
      by_cases hev : ev.ctorIdx = v.ctorIdx
      · by_cases hk : v.ctorIdx = k <;> simp [hev, hk]
      · by_cases hk : v.ctorIdx = k
        · have hother : ev.ctorIdx ≠ k := fun h => hev (h.trans hk.symm)
          rw [if_pos hk] at ih ⊢
          simp [hev, hother, ih]
        · rw [if_neg hk] at ih ⊢
          rw [if_neg hev, List.filter_cons, List.filter_cons, ih]

theorem findSome?_updateOrAddFieldToExtra {α : Type} {f : Item → Option α} {v : Item}
    (hf : ∀ item : Item, item.ctorIdx = v.ctorIdx → f item = none) (extra : List Item) :
    (Ops.updateOrAddFieldToExtra v extra).findSome? f = extra.findSome? f := by
  induction extra with
  | nil => simp [Ops.updateOrAddFieldToExtra, hf v rfl]
  | cons ev rest ih =>
      rw [Ops.updateOrAddFieldToExtra]
      by_cases hev : ev.ctorIdx = v.ctorIdx
      · simp [hev, hf v rfl, hf ev hev]
      · simp [hev, List.findSome?_cons, ih]

theorem any_updateOrAddFieldToExtra {p : Item → Bool} {v : Item}
    (hp : ∀ item : Item, item.ctorIdx = v.ctorIdx → p item = false) (extra : List Item) :
    (Ops.updateOrAddFieldToExtra v extra).any p = extra.any p := by
  induction extra with
  | nil => simp [Ops.updateOrAddFieldToExtra, hp v rfl]
  | cons ev rest ih =>
      rw [Ops.updateOrAddFieldToExtra]
      by_cases hev : ev.ctorIdx = v.ctorIdx
      · simp [hev, hp v rfl, hp ev hev]
      · simp [hev, ih]

/-- A field that is not there yet, or has the value already, leaves the items as they are. -/
theorem exists_updateOrAddFieldToExtra {v : Item} {extra own : List Item}
    (hold : ∀ old, extra.find? (fun item => item.ctorIdx = v.ctorIdx) = some old → old = v)
    (hown : ∀ item ∈ own, item.ctorIdx ≠ v.ctorIdx) :
    ∃ own', Ops.updateOrAddFieldToExtra v (extra ++ own) = extra ++ own' ∧
      ∀ item ∈ own', item ∈ own ∨ item = v := by
  induction extra with
  | nil =>
      refine ⟨own ++ [v], ?_, by simp⟩
      induction own with
      | nil => rfl
      | cons first own ih =>
          have hfirst : first.ctorIdx ≠ v.ctorIdx := hown first List.mem_cons_self
          have hrest := ih fun item hitem => hown item (List.mem_cons_of_mem _ hitem)
          rw [List.nil_append] at hrest ⊢
          rw [Ops.updateOrAddFieldToExtra, if_neg hfirst, hrest]
          rfl
  | cons ev rest ih =>
      by_cases hev : ev.ctorIdx = v.ctorIdx
      · have hsame : ev = v := hold ev (by simp [hev])
        refine ⟨own, ?_, fun item hitem => Or.inl hitem⟩
        rw [List.cons_append, Ops.updateOrAddFieldToExtra, if_pos hev, hsame]
      · obtain ⟨own', heq, hmem⟩ := ih fun old hfind => hold old (by simpa [hev] using hfind)
        refine ⟨own', ?_, hmem⟩
        rw [List.cons_append, Ops.updateOrAddFieldToExtra, if_neg hev, heq, List.cons_append]

/-- The fields that `construct_tx` writes into the extra. -/
def updates (param : Param) : List Item :=
  (if param.unlockTime ≠ 0 then [.unlockTime param.unlockTime] else []) ++
    (if param.flags ≠ 0 then [.detailsFlags param.flags] else []) ++
    (if param.expirationTime ≠ 0 then [.expirationTime param.expirationTime] else []) ++
    [.flags16 0]

theorem filter_setTxXDetail (detail : Nat → Item) (x k : Nat) (extra : List Item) :
    (Ops.setTxXDetail detail x extra).filter (fun item => item.ctorIdx = k) =
      if x ≠ 0 ∧ (detail x).ctorIdx = k then
        detail x :: (extra.filter fun item => item.ctorIdx = k).tail
      else extra.filter fun item => item.ctorIdx = k := by
  unfold Ops.setTxXDetail
  by_cases hx : x = 0
  · simp [hx]
  · simp [hx, filter_updateOrAddFieldToExtra]

theorem filter_constructExtra_of_mem {param : Param} {v : Item} (hv : v ∈ updates param)
    (txPub : PublicKey) :
    (Ops.constructExtra param txPub).filter (fun item => item.ctorIdx = v.ctorIdx) =
      v :: (param.extra.filter fun item => item.ctorIdx = v.ctorIdx).tail := by
  simp only [updates, List.mem_append, List.mem_ite_nil_right, List.mem_singleton] at hv
  unfold Ops.constructExtra
  simp only [filter_updateOrAddFieldToExtra, List.filter_append, filter_setTxXDetail]
  rcases hv with ((⟨hx, rfl⟩ | ⟨hx, rfl⟩) | ⟨hx, rfl⟩) | rfl <;> simp [Wire.PayloadItem.ctorIdx, *]

/-- The service attachments of the extra stay as they are. -/
theorem filter_constructExtra_service (param : Param) (txPub : PublicKey) :
    (Ops.constructExtra param txPub).filter (fun item => item.ctorIdx = 0) =
      param.extra.filter fun item => item.ctorIdx = 0 := by
  unfold Ops.constructExtra
  simp only [filter_updateOrAddFieldToExtra, List.filter_append, filter_setTxXDetail]
  simp [Wire.PayloadItem.ctorIdx]

theorem findSome?_constructExtra {α : Type} {f : Item → Option α} {param : Param}
    {txPub : PublicKey} (hf : ∀ item : Item, item.ctorIdx ∈ [8, 9, 10, 16] → f item = none) :
    (Ops.constructExtra param txPub).findSome? f =
      (param.extra.findSome? f).or (f (.publicKey txPub)) := by
  have hset : ∀ (detail : Nat → Item) (x : Nat) (extra : List Item),
      (detail x).ctorIdx ∈ [8, 9, 10, 16] →
        (Ops.setTxXDetail detail x extra).findSome? f = extra.findSome? f := by
    intro detail x extra hkind
    unfold Ops.setTxXDetail
    split
    · exact findSome?_updateOrAddFieldToExtra (fun item hitem => hf item (hitem ▸ hkind)) extra
    · rfl
  have hlast : List.findSome? f [.publicKey txPub] = f (.publicKey txPub) := by
    cases h : f (.publicKey txPub) <;> simp [h]
  unfold Ops.constructExtra
  rw [findSome?_updateOrAddFieldToExtra fun item hitem => hf item (hitem ▸ by decide),
    List.findSome?_append, hset _ _ _ (by simp [Wire.PayloadItem.ctorIdx]),
    hset _ _ _ (by simp [Wire.PayloadItem.ctorIdx]),
    hset _ _ _ (by simp [Wire.PayloadItem.ctorIdx]), hlast]

theorem any_constructExtra (param : Param) (txPub : PublicKey) :
    (Ops.constructExtra param txPub).any isCrypted = param.extra.any isCrypted := by
  have hkind : ∀ item : Item, item.ctorIdx ∈ [8, 9, 10, 16] → isCrypted item = false := by
    intro item hitem
    cases item <;> first | rfl | exact absurd hitem (by simp [Wire.PayloadItem.ctorIdx])
  have hset : ∀ (detail : Nat → Item) (x : Nat) (extra : List Item),
      (detail x).ctorIdx ∈ [8, 9, 10, 16] →
        (Ops.setTxXDetail detail x extra).any isCrypted = extra.any isCrypted := by
    intro detail x extra hdetail
    unfold Ops.setTxXDetail
    split
    · exact any_updateOrAddFieldToExtra (fun item hitem => hkind item (hitem ▸ hdetail)) extra
    · rfl
  unfold Ops.constructExtra
  rw [any_updateOrAddFieldToExtra fun item hitem => hkind item (hitem ▸ by decide), List.any_append,
    hset _ _ _ (by simp [Wire.PayloadItem.ctorIdx]),
    hset _ _ _ (by simp [Wire.PayloadItem.ctorIdx]),
    hset _ _ _ (by simp [Wire.PayloadItem.ctorIdx])]
  simp [isCrypted]

/-- With fields that have their values already, the extra is what it was, with items behind. -/
theorem exists_constructExtra {param : Param} (txPub : PublicKey)
    (hold : ∀ v ∈ updates param, ∀ old,
      param.extra.find? (fun item => item.ctorIdx = v.ctorIdx) = some old → old = v) :
    ∃ own, Ops.constructExtra param txPub = param.extra ++ own ∧
      ∀ item ∈ own, item ∈ updates param ∨ item = .publicKey txPub := by
  have hset : ∀ (detail : Nat → Item) (x : Nat) (own : List Item),
      (x ≠ 0 → detail x ∈ updates param) → (∀ item ∈ own, item.ctorIdx ≠ (detail x).ctorIdx) →
        ∃ own', Ops.setTxXDetail detail x (param.extra ++ own) = param.extra ++ own' ∧
          ∀ item ∈ own', item ∈ own ∨ item = detail x ∧ x ≠ 0 := by
    intro detail x own hmem hown
    unfold Ops.setTxXDetail
    split
    · rename_i hx
      obtain ⟨own', heq, hown'⟩ := exists_updateOrAddFieldToExtra (hold _ (hmem hx)) hown
      exact ⟨own', heq, fun item hitem => (hown' item hitem).imp_right fun h => ⟨h, hx⟩⟩
    · exact ⟨own, rfl, fun item hitem => Or.inl hitem⟩
  obtain ⟨own₁, heq₁, hown₁⟩ := hset .unlockTime param.unlockTime []
    (fun hx => by simp [updates, hx]) (by simp)
  obtain ⟨own₂, heq₂, hown₂⟩ := hset .detailsFlags param.flags own₁
    (fun hx => by simp [updates, hx]) fun item hitem => by
      rcases hown₁ item hitem with h | ⟨rfl, -⟩
      · cases h
      · exact (by decide : (8 : Nat) ≠ 10)
  obtain ⟨own₃, heq₃, hown₃⟩ := hset .expirationTime param.expirationTime own₂
    (fun hx => by simp [updates, hx]) fun item hitem => by
      rcases hown₂ item hitem with h | ⟨rfl, -⟩
      · rcases hown₁ item h with h | ⟨rfl, -⟩
        · cases h
        · exact (by decide : (8 : Nat) ≠ 9)
      · exact (by decide : (10 : Nat) ≠ 9)
  have hmem₃ : ∀ item ∈ own₃ ++ [.publicKey txPub],
      (item ∈ updates param ∨ item = .publicKey txPub) ∧ item.ctorIdx ≠ 16 := by
    intro item hitem
    rcases List.mem_append.mp hitem with h | h
    · rcases hown₃ item h with h | ⟨rfl, hx⟩
      · rcases hown₂ item h with h | ⟨rfl, hx⟩
        · rcases hown₁ item h with h | ⟨rfl, hx⟩
          · cases h
          · exact ⟨Or.inl (by simp [updates, hx]), (by decide : (8 : Nat) ≠ 16)⟩
        · exact ⟨Or.inl (by simp [updates, hx]), (by decide : (10 : Nat) ≠ 16)⟩
      · exact ⟨Or.inl (by simp [updates, hx]), (by decide : (9 : Nat) ≠ 16)⟩
    · obtain rfl := List.mem_singleton.mp h
      exact ⟨Or.inr rfl, (by decide : (11 : Nat) ≠ 16)⟩
  obtain ⟨own, heq, hown⟩ := exists_updateOrAddFieldToExtra (v := .flags16 0)
    (hold _ (by simp [updates])) fun item hitem => (hmem₃ item hitem).2
  refine ⟨own, ?_, fun item hitem => ?_⟩
  · rw [List.append_nil] at heq₁
    simp only [Ops.constructExtra, heq₁, heq₂, heq₃, List.append_assoc, heq]
  · rcases hown item hitem with h | rfl
    · exact (hmem₃ item h).1
    · exact Or.inl (by simp [updates])

/-! ## The `security` of the attachments -/

def serviceAttachments (items : List Item) : List ServiceAttachment :=
  items.filterMap fun
    | .serviceAttachment sa => some sa
    | _ => none

/-- The items with the number of service attachments in front. -/
def places : Nat → List Item → List (Item × Nat)
  | _, [] => []
  | n, .serviceAttachment sa :: rest => (.serviceAttachment sa, n) :: places (n + 1) rest
  | n, item :: rest => (item, n) :: places n rest

/-- The item with a derived key in place of what its `security` has. -/
def secured (key : PublicKey) : Item → Item
  | .serviceAttachment sa =>
      .serviceAttachment { sa with security := if sa.security = [] then [] else [key] }
  | item => item

theorem map_fst_places (n : Nat) (items : List Item) : (places n items).map Prod.fst = items := by
  induction items generalizing n with
  | nil => rfl
  | cons item rest ih => cases item <;> simp [places, ih]

theorem places_append (n : Nat) (items items' : List Item) :
    ∃ m, places n (items ++ items') = places n items ++ places m items' := by
  induction items generalizing n with
  | nil => exact ⟨n, rfl⟩
  | cons item rest ih =>
      cases item with
      | serviceAttachment sa =>
          obtain ⟨m, hm⟩ := ih (n + 1)
          exact ⟨m, congrArg _ hm⟩
      | _ =>
          obtain ⟨m, hm⟩ := ih n
          exact ⟨m, congrArg _ hm⟩

theorem places_map_encodedItem (recipient : Account ops) (txKey : ops.KeyPair) (n : Nat)
    (items : List Item) :
    places n (items.map (encodedItem recipient txKey)) =
      (places n items).map fun p => (encodedItem recipient txKey p.1, p.2) := by
  induction items generalizing n with
  | nil => rfl
  | cons item rest ih => cases item <;> simp [places, encodedItem, ih]

theorem mem_places_service {sa : ServiceAttachment} {m n : Nat} {items : List Item} :
    (.serviceAttachment sa, m) ∈ places n items ↔
      ∃ i, m = n + i ∧ (serviceAttachments items)[i]? = some sa := by
  unfold serviceAttachments
  induction items generalizing n with
  | nil => simp [places]
  | cons item rest ih =>
      cases item with
      | serviceAttachment first =>
          rw [places, List.mem_cons, ih]
          constructor
          · rintro (h | ⟨i, rfl, hi⟩)
            · rw [Prod.mk.injEq, Wire.PayloadItem.serviceAttachment.injEq] at h
              exact ⟨0, h.2, by simp [h.1]⟩
            · exact ⟨i + 1, by omega, by simpa using hi⟩
          · rintro ⟨i, rfl, hi⟩
            cases i with
            | zero =>
                left
                simpa using hi.symm
            | succ i => exact Or.inr ⟨i, by omega, by simpa using hi⟩
      | _ => simp [places, ih]

theorem derivedSecurity_ok {address : AccountPublicAddress} {sec : SecretKey}
    {key : Nat → PublicKey}
    (hkey : ∀ n, ops.derivePublicKeyFromTargetAddress address sec n = .ok (some (key n))) {n : Nat}
    {security security' : List PublicKey}
    (h : ops.derivedSecurity address sec n security = .ok security') :
    security' = if security = [] then [] else [key n] := by
  match security with
  | [] => exact (Except.ok.inj h).symm
  | [_] =>
      rw [Ops.derivedSecurity, hkey, Run.ok_bind] at h
      exact (Except.ok.inj h).symm
  | _ :: _ :: _ => cases h

theorem deriveSecurity_ok {address : AccountPublicAddress} {sec : SecretKey}
    {key : Nat → PublicKey}
    (hkey : ∀ n, ops.derivePublicKeyFromTargetAddress address sec n = .ok (some (key n))) {n : Nat}
    {items items' : List Item} (h : ops.deriveSecurity address sec n items = .ok items') :
    items' = (places n items).map fun p => secured (key p.2) p.1 := by
  induction items generalizing n items' with
  | nil => exact (Except.ok.inj h).symm
  | cons item rest ih =>
      cases item with
      | serviceAttachment tsa =>
          obtain ⟨security, hsecurity, h⟩ := bind_eq_ok.mp h
          obtain ⟨rest', hrest, h⟩ := bind_eq_ok.mp h
          have hfilled := derivedSecurity_ok hkey hsecurity
          rw [← Except.ok.inj h, ih hrest, hfilled]
          rfl
      | _ =>
          obtain ⟨rest', hrest, h⟩ := bind_eq_ok.mp h
          rw [← Except.ok.inj h, ih hrest]
          rfl

/-- The keys are derived for every account. -/
theorem exists_derivedKeys (sender : Account ops) (txKey : ops.KeyPair) :
    ∃ key : Nat → PublicKey, ∀ n,
      ops.derivePublicKeyFromTargetAddress sender.keys.accountAddress txKey.sec n =
        .ok (some (key n)) := by
  have hderived : ∀ n, ∃ key,
      ops.derivePublicKeyFromTargetAddress sender.keys.accountAddress txKey.sec n =
        .ok (some key) := by
    intro n
    obtain ⟨derived, hpublic, -⟩ := CurveOps.exists_derived (sender.view.derivation txKey)
      (UInt64.ofNat n) sender.spend
    refine ⟨derived.pub, ?_⟩
    rw [Ops.derivePublicKeyFromTargetAddress, Account.keys, generateKeyDerivation_pair, Run.ok_bind]
    dsimp only
    rw [hpublic]
    rfl
  choose key hkey using hderived
  exact ⟨key, hkey⟩

/-! ## The two lists -/

/-- The items that only `construct_tx` puts into a payload. -/
def isOwn : Item → Bool
  | .cryptoChecksum _ => true
  | .derivationHint _ => true
  | .attachmentInfo _ => true
  | _ => false

/-- The checksum of the transaction. -/
def ownChecksum (sender recipient : Account ops) (txKey : ops.KeyPair) : Wire.TxCryptoChecksum where
  encryptedKeyDerivation := ops.chachaCryptPod Wire.keyDerivation
    (Ops.scalarBytes sender.keys.spendSecretKey) (commonKey recipient txKey)
  derivationHash := ops.derivationHash (commonKey recipient txKey)

def anyCrypted (param : Param) : Bool := (param.extra ++ param.attachments).any isCrypted

theorem firstCryptoChecksum_append (items items' : List Item) :
    Ops.firstCryptoChecksum (items ++ items') =
      (Ops.firstCryptoChecksum items).or (Ops.firstCryptoChecksum items') :=
  List.findSome?_append

theorem firstCryptoChecksum_hints (hints : List ByteString) :
    Ops.firstCryptoChecksum (hints.map .derivationHint) = none := by
  induction hints with
  | nil => rfl
  | cons hint hints ih => exact ih

/-- What `encrypt_attachments` leaves. -/
theorem encryptAttachments_ok {sender recipient : Account ops} {txKey : ops.KeyPair} {tx tx' : Tx}
    (h : ops.encryptAttachments tx sender.keys recipient.keys.accountAddress txKey.sec = .ok tx') :
    ∃ extraChs attachmentChs : List Item,
      tx'.extra = tx.extra.map (encodedItem recipient txKey) ++ extraChs ∧
      tx'.attachment = tx.attachment.map (encodedItem recipient txKey) ++ attachmentChs ∧
      (∀ item ∈ extraChs ++ attachmentChs, isOwn item = true) ∧
      (Ops.firstCryptoChecksum extraChs).or (Ops.firstCryptoChecksum attachmentChs) =
        if tx.extra.any isCrypted || tx.attachment.any isCrypted then
          some (ownChecksum sender recipient txKey)
        else none := by
  have hderivation : orUndefined (ops.generateKeyDerivation
      recipient.keys.accountAddress.viewPublicKey txKey.sec) =
      .ok (some (commonKey recipient txKey)) := generateKeyDerivation_pair recipient.view txKey
  rw [Ops.encryptAttachments, hderivation, Run.ok_bind] at h
  obtain ⟨attachment, hattachment, h⟩ := bind_eq_ok.mp h
  obtain ⟨extra, hextra, h⟩ := bind_eq_ok.mp h
  rw [encryptItems_ok hattachment, encryptItems_ok hextra] at h
  dsimp only at h
  cases hextraCrypted : tx.extra.any isCrypted with
  | true =>
      rw [hextraCrypted, if_pos rfl] at h
      obtain rfl := Except.ok.inj h
      exact ⟨[.cryptoChecksum (ownChecksum sender recipient txKey)], [], rfl,
        (List.append_nil _).symm, by simp [isOwn],
        by simp [Ops.firstCryptoChecksum, Ops.asCryptoChecksum]⟩
  | false =>
      cases hattachmentCrypted : tx.attachment.any isCrypted with
      | true =>
          rw [hextraCrypted, hattachmentCrypted, if_neg Bool.false_ne_true, if_pos rfl] at h
          obtain rfl := Except.ok.inj h
          exact ⟨[], [.cryptoChecksum (ownChecksum sender recipient txKey)],
            (List.append_nil _).symm, rfl, by simp [isOwn],
            by simp [Ops.firstCryptoChecksum, Ops.asCryptoChecksum]⟩
      | false =>
          rw [hextraCrypted, hattachmentCrypted, if_neg Bool.false_ne_true,
            if_neg Bool.false_ne_true] at h
          obtain rfl := Except.ok.inj h
          exact ⟨[], [], (List.append_nil _).symm, (List.append_nil _).symm, by simp,
            by simp [Ops.firstCryptoChecksum]⟩

/-- The items of the two lists in their order, with those of the transaction itself behind. -/
structure IsConstructed (sender recipient : Account ops) (txKey : ops.KeyPair)
    (key : Nat → PublicKey) (param : Param) (tx : Tx) (ownExtra ownAttachment : List Item) :
    Prop where
  extra_eq : tx.extra =
    (Ops.constructExtra param txKey.pub).map (encodedItem recipient txKey) ++ ownExtra
  attachment_eq : tx.attachment = ((places 0 param.attachments).map fun p =>
    secured (key p.2) (encodedItem recipient txKey p.1)) ++ ownAttachment
  own : ∀ item ∈ ownExtra ++ ownAttachment, isOwn item = true
  checksum : (Ops.firstCryptoChecksum ownExtra).or (Ops.firstCryptoChecksum ownAttachment) =
    if anyCrypted param then some (ownChecksum sender recipient txKey) else none

theorem constructPayload_ok {sender recipient : Account ops} {param : Param} {txKey : ops.KeyPair}
    {hints : List ByteString} {tx : Tx} {key : Nat → PublicKey}
    (haddress : param.cryptAddress = recipient.keys.accountAddress)
    (hkey : ∀ n, ops.derivePublicKeyFromTargetAddress sender.keys.accountAddress txKey.sec n =
      .ok (some (key n)))
    (h : ops.constructPayload sender.keys param txKey hints = .ok tx) :
    ∃ ownExtra ownAttachment,
      IsConstructed sender recipient txKey key param tx ownExtra ownAttachment := by
  obtain ⟨tx₁, hencrypted, h⟩ := bind_eq_ok.mp h
  obtain ⟨attachment, hattachment, h⟩ := bind_eq_ok.mp h
  rw [haddress] at hencrypted
  obtain ⟨extraChs, attachmentChs, hextra, hchs, hown, hfirst⟩ := encryptAttachments_ok hencrypted
  -- the checksum has no `security`
  have hfilled : attachment = ((places 0 param.attachments).map fun p =>
      secured (key p.2) (encodedItem recipient txKey p.1)) ++ attachmentChs := by
    obtain ⟨m, hm⟩ := places_append 0 (param.attachments.map (encodedItem recipient txKey))
      attachmentChs
    have hkept : (places m attachmentChs).map (fun p => secured (key p.2) p.1) = attachmentChs := by
      have hsame : (places m attachmentChs).map (fun p => secured (key p.2) p.1) =
          (places m attachmentChs).map Prod.fst := by
        refine List.map_congr_left fun p hp => ?_
        have hmem : p.1 ∈ attachmentChs := by
          rw [← map_fst_places m attachmentChs]
          exact List.mem_map_of_mem hp
        have hisOwn := hown p.1 (List.mem_append_right _ hmem)
        cases hitem : p.1 <;> first | rfl | exact absurd hisOwn (by simp [hitem, isOwn])
      rw [hsame, map_fst_places]
    rw [deriveSecurity_ok hkey hattachment, hchs, hm, List.map_append, hkept,
      places_map_encodedItem, List.map_map]
    rfl
  have hcrypted : ((Ops.constructExtra param txKey.pub).any isCrypted ||
      param.attachments.any isCrypted) = anyCrypted param := by
    rw [any_constructExtra, anyCrypted, List.any_append]
  rw [hcrypted] at hfirst
  -- what stands behind the checksum
  obtain ⟨behind, hbehind, hbehindOwn, hbehindFirst⟩ : ∃ behind : List Item,
      tx = { extra := tx₁.extra ++ behind
             attachment } ∧
      (∀ item ∈ behind, isOwn item = true) ∧ Ops.firstCryptoChecksum behind = none := by
    have hhints : ∀ item ∈ hints.map Wire.PayloadItem.derivationHint, isOwn item = true := by
      simp [isOwn]
    split at h
    · refine ⟨hints.map .derivationHint ++
        [.attachmentInfo (ops.getAttachmentExtraInfoDetails attachment)], ?_, ?_, ?_⟩
      · rw [← Except.ok.inj h, List.append_assoc]
      · intro item hitem
        rcases List.mem_append.mp hitem with hitem | hitem
        · exact hhints item hitem
        · rw [List.mem_singleton.mp hitem]
          rfl
      · rw [firstCryptoChecksum_append, firstCryptoChecksum_hints]
        rfl
    · exact ⟨hints.map .derivationHint, (Except.ok.inj h).symm, hhints,
        firstCryptoChecksum_hints hints⟩
  refine ⟨extraChs ++ behind, attachmentChs, ?_, ?_, ?_, ?_⟩
  · rw [hbehind, hextra, List.append_assoc]
  · rw [hbehind, hfilled]
  · intro item hitem
    simp only [List.mem_append] at hitem hown
    rcases hitem with (h | h) | h
    · exact hown item (Or.inl h)
    · exact hbehindOwn item h
    · exact hown item (Or.inr h)
  · rw [firstCryptoChecksum_append, hbehindFirst, Option.or_none, hfirst]

end Payload
end Chinet
