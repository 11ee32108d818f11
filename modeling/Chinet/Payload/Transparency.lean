import Chinet.Lib.Selection
import Chinet.Payload.Returned

/-!
# Reading a payload back

Both sides find the key of the items, and are given the original items in their order.  But
`construct_tx` writes a derived key over the proof of an attachment after it has been encrypted,
and an item whose proof does not fit is dropped; and deflated bodies are inflated only where
something has been encrypted.
-/

namespace Chinet
namespace Payload

open PartialSteps Selection

variable {P : Type} [AddCommGroup P] {ops : Ops P}

/-! ## The property -/

/-- The recipient has the spend key, unless the wallet only watches; the sender has not. -/
def canSpend (recipient : Account ops) (isIncome : Bool) : Bool :=
  isIncome && recipient.keys.spendSecretKey != nullSkey

/-- `decrypt_payload_items` gives the original items in their order, among those of the
transaction itself. -/
def ReadsBack (sender recipient : Account ops) (param : Param) (tx : Tx) (isIncome : Bool) : Prop :=
  ∃ items,
    ops.decryptPayloadItems isIncome tx (if isIncome then recipient.keys else sender.keys) =
      .ok items ∧
    (((param.extra ++ param.attachments).filter (isFor (canSpend recipient isIncome))).map
      withoutSecurity).Sublist (items.map withoutSecurity)

instance {sender recipient : Account ops} {param : Param} {tx : Tx} {isIncome : Bool} :
    Decidable (ReadsBack sender recipient param tx isIncome) :=
  inferInstanceAs (Decidable (∃ items,
    ops.decryptPayloadItems isIncome tx (if isIncome then recipient.keys else sender.keys) =
      .ok items ∧
    (((param.extra ++ param.attachments).filter (isFor (canSpend recipient isIncome))).map
      withoutSecurity).Sublist (items.map withoutSecurity)))

/-- The body comes back: it is inflated again only in a transaction in which something is
encrypted. -/
def BodyReturns (ops : Ops P) (param : Param) (sa : ServiceAttachment) : Prop :=
  deflatesBody sa = true →
    (if anyCrypted param then ops.unpacked (ops.packed sa.body) else ops.packed sa.body) = sa.body

/-- The condition under which a reader is given the items. -/
structure Survives (sender recipient : Account ops) (txKey : ops.KeyPair) (param : Param)
    (isIncome : Bool) : Prop where
  fields : ∀ v ∈ updates param, ∀ old,
    param.extra.find? (fun item => item.ctorIdx = v.ctorIdx) = some old → old = v
  bodies : ∀ sa, .serviceAttachment sa ∈ param.extra ++ param.attachments →
    isFor (canSpend recipient isIncome) (.serviceAttachment sa) = true → BodyReturns ops param sa
  extraProofs : ∀ sa, .serviceAttachment sa ∈ param.extra →
    isFor (canSpend recipient isIncome) (.serviceAttachment sa) = true →
      encryptsBody sa = true → addsProof sa = true → sa.security = []
  attachmentProofs : ∀ n sa, (serviceAttachments param.attachments)[n]? = some sa →
    isFor (canSpend recipient isIncome) (.serviceAttachment sa) = true →
      encryptsBody sa = true → addsProof sa = true →
        ops.derivePublicKeyFromTargetAddress sender.keys.accountAddress txKey.sec n =
          .ok (some (proof recipient txKey sa))

/-! ## The lists -/

/-- The items of the extra, and of the attachments with their places. -/
def extraEntries (extra : List Item) : List (Item × Option Nat) :=
  extra.map fun item => (item, none)

def attachmentEntries (attachments : List Item) : List (Item × Option Nat) :=
  (places 0 attachments).map fun p => (p.1, some p.2)

theorem map_fst_extraEntries (extra : List Item) : (extraEntries extra).map Prod.fst = extra := by
  rw [extraEntries, List.map_map]
  exact List.map_id extra

theorem map_fst_attachmentEntries (attachments : List Item) :
    (attachmentEntries attachments).map Prod.fst = attachments := by
  calc (attachmentEntries attachments).map Prod.fst
      = (places 0 attachments).map Prod.fst := by simp [attachmentEntries]
    _ = attachments := map_fst_places 0 attachments

theorem mem_of_mem_entries {param : Param} {e : Item × Option Nat}
    (he : e ∈ extraEntries param.extra ++ attachmentEntries param.attachments) :
    e.1 ∈ param.extra ++ param.attachments := by
  have hmem := List.mem_map_of_mem (f := Prod.fst) he
  rwa [List.map_append, map_fst_extraEntries, map_fst_attachmentEntries] at hmem

/-- The originals that are meant for the reader. -/
def originals (param : Param) (canSpend : Bool) : List Item :=
  ((param.extra ++ param.attachments).filter (isFor canSpend)).map withoutSecurity

theorem originals_eq_entries (param : Param) (canSpend : Bool) :
    originals param canSpend =
      ((extraEntries param.extra ++ attachmentEntries param.attachments).filter
        fun e => isFor canSpend e.1).map fun e => withoutSecurity e.1 := by
  have hfst : (extraEntries param.extra ++ attachmentEntries param.attachments).map Prod.fst =
      param.extra ++ param.attachments := by
    rw [List.map_append, map_fst_extraEntries, map_fst_attachmentEntries]
  rw [originals, ← hfst, List.filter_map, List.map_map]
  rfl

theorem withoutSecurity_of_ne_service {item : Item} (hkind : item.ctorIdx ≠ 0) :
    withoutSecurity item = item := by
  unfold withoutSecurity
  cases item with
  | serviceAttachment sa => exact absurd rfl hkind
  | _ => simp only

theorem isFor_of_ne_service {item : Item} (hkind : item.ctorIdx ≠ 0) (canSpend : Bool) :
    isFor canSpend item = true := by
  cases item with
  | serviceAttachment sa => exact absurd rfl hkind
  | _ => rfl

theorem filter_originals (param : Param) (canSpend : Bool) {k : Nat} (hk : k ≠ 0) :
    (originals param canSpend).filter (fun item => item.ctorIdx = k) =
      (param.extra ++ param.attachments).filter fun item => item.ctorIdx = k := by
  unfold originals
  induction param.extra ++ param.attachments with
  | nil => rfl
  | cons item rest ih =>
      by_cases hitem : item.ctorIdx = k
      · have hkind : item.ctorIdx ≠ 0 := hitem ▸ hk
        rw [List.filter_cons_of_pos (isFor_of_ne_service hkind canSpend), List.map_cons,
          withoutSecurity_of_ne_service hkind, List.filter_cons_of_pos (by simpa using hitem), ih,
          List.filter_cons_of_pos (by simpa using hitem)]
      · rw [List.filter_cons_of_neg (p := fun item : Item => decide (item.ctorIdx = k))
          (by simpa using hitem), ← ih]
        cases hfor : isFor canSpend item with
        | false => rw [List.filter_cons_of_neg (by simp [hfor])]
        | true =>
            rw [List.filter_cons_of_pos hfor, List.map_cons, List.filter_cons_of_neg]
            simpa [ctorIdx_withoutSecurity] using hitem

section

variable {sender recipient : Account ops} {txKey : ops.KeyPair} {key : Nat → PublicKey}
  {param : Param} {isIncome : Bool}

theorem isCrypted_entry {e : Item × Option Nat}
    (he : e ∈ extraEntries param.extra ++ attachmentEntries param.attachments)
    (hcrypted : isCrypted e.1 = true) : anyCrypted param = true :=
  List.any_eq_true.mpr ⟨e.1, mem_of_mem_entries he, hcrypted⟩

/-- What a reader is not meant to have is not read. -/
theorem returned_entry_of_not_isFor {s : Bool} {e : Item × Option Nat}
    (he : e ∈ extraEntries param.extra ++ attachmentEntries param.attachments)
    (hfor : isFor s e.1 = false) :
    returned recipient txKey key (anyCrypted param) s e = none := by
  obtain ⟨item, place⟩ := e
  cases item with
  | serviceAttachment sa =>
      have hencrypts : encryptsBody sa = true := by
        simp only [isFor, Bool.not_eq_false', Bool.and_eq_true] at hfor
        exact hfor.1.1
      rw [isCrypted_entry he hencrypts]
      exact returned_of_not_isFor hfor
  | _ => cases hfor

theorem finalSecurity_none_iff {sa : ServiceAttachment} (hencrypts : encryptsBody sa = true)
    (hadds : addsProof sa = true) :
    finalSecurity recipient txKey key sa none = [proof recipient txKey sa] ↔ sa.security = [] := by
  simp [finalSecurity, encoded, hencrypts, hadds]

theorem finalSecurity_some_iff {sa : ServiceAttachment} {n : Nat}
    (hencrypts : encryptsBody sa = true) (hadds : addsProof sa = true) :
    finalSecurity recipient txKey key sa (some n) = [proof recipient txKey sa] ↔
      key n = proof recipient txKey sa := by
  simp [finalSecurity, encoded, hencrypts, hadds]

theorem mem_extraEntries_service {sa : ServiceAttachment} {extra : List Item} :
    (.serviceAttachment sa, none) ∈ extraEntries extra ↔ .serviceAttachment sa ∈ extra := by
  simp [extraEntries]

theorem mem_attachmentEntries_service {sa : ServiceAttachment} {n : Nat}
    {attachments : List Item} :
    (.serviceAttachment sa, some n) ∈ attachmentEntries attachments ↔
      (serviceAttachments attachments)[n]? = some sa := by
  have hplaces : (.serviceAttachment sa, some n) ∈ attachmentEntries attachments ↔
      (.serviceAttachment sa, n) ∈ places 0 attachments := by
    simp [attachmentEntries]
  rw [hplaces, mem_places_service]
  simp

/-- Every entry is in one of the two lists. -/
theorem mem_entries_cases {e : Item × Option Nat}
    (he : e ∈ extraEntries param.extra ++ attachmentEntries param.attachments) :
    (e.2 = none ∧ (e.1, none) ∈ extraEntries param.extra) ∨
      ∃ n, e.2 = some n ∧ (e.1, some n) ∈ attachmentEntries param.attachments := by
  rcases List.mem_append.mp he with he | he
  · obtain ⟨item, hitem, rfl⟩ := List.mem_map.mp he
    exact Or.inl ⟨rfl, he⟩
  · obtain ⟨p, hp, rfl⟩ := List.mem_map.mp he
    exact Or.inr ⟨p.2, rfl, he⟩

variable (hkey : ∀ n, ops.derivePublicKeyFromTargetAddress sender.keys.accountAddress txKey.sec n =
  .ok (some (key n)))

include hkey

/-- Under the condition each item comes back. -/
theorem returned_entry (hsurvives : Survives sender recipient txKey param isIncome)
    {e : Item × Option Nat}
    (he : e ∈ extraEntries param.extra ++ attachmentEntries param.attachments)
    (hfor : isFor (canSpend recipient isIncome) e.1 = true) :
    returned recipient txKey key (anyCrypted param) (canSpend recipient isIncome) e =
      some (withoutSecurity e.1) := by
  have hcrypted : isCrypted e.1 = true → anyCrypted param = true := isCrypted_entry he
  by_cases hkind : e.1.ctorIdx = 0
  · have hmem := mem_of_mem_entries he
    have hcases := mem_entries_cases he
    obtain ⟨item, place⟩ := e
    cases item with
    | serviceAttachment sa =>
        refine (returned_service_iff hfor hcrypted).mpr ⟨hsurvives.bodies sa hmem hfor, ?_⟩
        intro hencrypts hadds
        rcases hcases with ⟨rfl, hextra⟩ | ⟨n, rfl, hattachment⟩
        · exact (finalSecurity_none_iff hencrypts hadds).mpr
            (hsurvives.extraProofs sa (mem_extraEntries_service.mp hextra) hfor hencrypts hadds)
        · have hproof := hsurvives.attachmentProofs n sa
            (mem_attachmentEntries_service.mp hattachment) hfor hencrypts hadds
          rw [hkey, Except.ok.injEq, Option.some.injEq] at hproof
          exact (finalSecurity_some_iff hencrypts hadds).mpr hproof
    | _ => exact absurd hkind (by simp [Wire.PayloadItem.ctorIdx])
  · rw [returned_of_ne_service hkind hcrypted, withoutSecurity_of_ne_service hkind]

/-- The service attachments that come back meet the condition. -/
theorem survives_of_returned
    (hfields : ∀ v ∈ updates param, ∀ old,
      param.extra.find? (fun item => item.ctorIdx = v.ctorIdx) = some old → old = v)
    (hreturned : ∀ e ∈ extraEntries param.extra ++ attachmentEntries param.attachments,
      e.1.ctorIdx = 0 → isFor (canSpend recipient isIncome) e.1 = true →
        returned recipient txKey key (anyCrypted param) (canSpend recipient isIncome) e =
          some (withoutSecurity e.1)) :
    Survives sender recipient txKey param isIncome := by
  have hservice : ∀ sa place, (.serviceAttachment sa, place) ∈
      extraEntries param.extra ++ attachmentEntries param.attachments →
        isFor (canSpend recipient isIncome) (.serviceAttachment sa) = true →
          BodyReturns ops param sa ∧ (encryptsBody sa = true → addsProof sa = true →
            finalSecurity recipient txKey key sa place = [proof recipient txKey sa]) :=
    fun sa place he hfor => (returned_service_iff hfor (isCrypted_entry he)).mp
      (hreturned (.serviceAttachment sa, place) he rfl hfor)
  refine ⟨hfields, fun sa hmem hfor => ?_, fun sa hmem hfor hencrypts hadds => ?_,
    fun n sa hget hfor hencrypts hadds => ?_⟩
  · have hfst : .serviceAttachment sa ∈ (extraEntries param.extra ++
        attachmentEntries param.attachments).map Prod.fst := by
      rwa [List.map_append, map_fst_extraEntries, map_fst_attachmentEntries]
    obtain ⟨⟨item, place⟩, he, rfl⟩ := List.mem_map.mp hfst
    exact (hservice sa place he hfor).1
  · have he := List.mem_append_left (attachmentEntries param.attachments)
      (mem_extraEntries_service.mpr hmem)
    exact (finalSecurity_none_iff hencrypts hadds).mp ((hservice sa none he hfor).2 hencrypts hadds)
  · have he := List.mem_append_right (extraEntries param.extra)
      (mem_attachmentEntries_service.mpr hget)
    rw [hkey, (finalSecurity_some_iff hencrypts hadds).mp
      ((hservice sa (some n) he hfor).2 hencrypts hadds)]

omit hkey

/-- What is read of the lists of the transaction. -/
theorem filter_returned {entries : List (Item × Option Nat)} {s : Bool} (k : Nat) :
    (entries.filterMap (returned recipient txKey key (anyCrypted param) s)).filter
        (fun item => item.ctorIdx = k) =
      (entries.filter fun e => e.1.ctorIdx = k).filterMap
        (returned recipient txKey key (anyCrypted param) s) :=
  filter_filterMap_of_eq fun e _ item hitem => by rw [ctorIdx_of_returned hitem]

theorem filter_given_own {own : List Item} {s : Bool} {k : Nat}
    (hown : ∀ item ∈ own, isOwn item = true) (hk : k ∉ [4, 6, 12]) :
    (own.filterMap (given recipient txKey (anyCrypted param) s)).filter
      (fun item => item.ctorIdx = k) = [] := by
  rw [List.filter_eq_nil_iff]
  intro item hitem
  obtain ⟨source, hsource, hgiven⟩ := List.mem_filterMap.mp hitem
  have hkind : source.ctorIdx ∈ [4, 6, 12] := by
    have hisOwn := hown source hsource
    cases source with
    | derivationHint msg => simp [Wire.PayloadItem.ctorIdx]
    | cryptoChecksum info => simp [Wire.PayloadItem.ctorIdx]
    | attachmentInfo info => simp [Wire.PayloadItem.ctorIdx]
    | _ => exact absurd hisOwn Bool.false_ne_true
  rw [ctorIdx_of_given hgiven, decide_eq_true_eq]
  exact fun h => hk (h ▸ hkind)

/-- The items of one kind that is not the service attachment. -/
theorem returned_filter_of_ne {entries : List (Item × Option Nat)} {s : Bool} {k : Nat}
    (hk : k ≠ 0) (hcrypted : ∀ e ∈ entries, isCrypted e.1 = true → anyCrypted param = true) :
    (entries.filter fun e => e.1.ctorIdx = k).filterMap
        (returned recipient txKey key (anyCrypted param) s) =
      (entries.map Prod.fst).filter fun item => item.ctorIdx = k := by
  have hall : (entries.filter fun e => e.1.ctorIdx = k).filterMap
      (returned recipient txKey key (anyCrypted param) s) =
      ((entries.filter fun e => e.1.ctorIdx = k).filter fun _ => true).map Prod.fst := by
    refine filterMap_eq_map_filter (fun e he _ => ?_) fun e _ h => by cases h
    have hkind : e.1.ctorIdx = k := by simpa using List.of_mem_filter he
    exact returned_of_ne_service (hkind ▸ hk) (hcrypted e (List.mem_of_mem_filter he))
  rw [hall, List.filter_map, List.filter_true]
  rfl

variable (recipient txKey key param) in
/-- What is read of a transaction, by the items that stand behind the extra and the attachments. -/
def readList (s : Bool) (txPub : PublicKey) (ownExtra ownAttachment : List Item) : List Item :=
  (extraEntries (Ops.constructExtra param txPub)).filterMap
      (returned recipient txKey key (anyCrypted param) s) ++
    ownExtra.filterMap (given recipient txKey (anyCrypted param) s) ++
    ((attachmentEntries param.attachments).filterMap
      (returned recipient txKey key (anyCrypted param) s) ++
    ownAttachment.filterMap (given recipient txKey (anyCrypted param) s))

theorem filter_readList {s : Bool} {txPub : PublicKey} {ownExtra ownAttachment : List Item}
    (hown : ∀ item ∈ ownExtra ++ ownAttachment, isOwn item = true) {k : Nat} (hk : k ∉ [4, 6, 12]) :
    (readList recipient txKey key param s txPub ownExtra ownAttachment).filter
        (fun item => item.ctorIdx = k) =
      ((extraEntries (Ops.constructExtra param txPub)).filter
          fun e => e.1.ctorIdx = k).filterMap (returned recipient txKey key (anyCrypted param) s) ++
        ((attachmentEntries param.attachments).filter
          fun e => e.1.ctorIdx = k).filterMap
            (returned recipient txKey key (anyCrypted param) s) := by
  rw [readList, List.filter_append, List.filter_append, List.filter_append, filter_returned,
    filter_returned, filter_given_own (fun item h => hown item (List.mem_append_left _ h)) hk,
    filter_given_own (fun item h => hown item (List.mem_append_right _ h)) hk, List.append_nil,
    List.append_nil]

theorem filter_extraEntries (extra : List Item) (k : Nat) :
    (extraEntries extra).filter (fun e => e.1.ctorIdx = k) =
      extraEntries (extra.filter fun item => item.ctorIdx = k) := by
  rw [extraEntries, List.filter_map]
  rfl

theorem isCrypted_constructExtra {txPub : PublicKey} {item : Item}
    (hitem : item ∈ Ops.constructExtra param txPub) (hcrypted : isCrypted item = true) :
    anyCrypted param = true := by
  have hany : (Ops.constructExtra param txPub).any isCrypted = true :=
    List.any_eq_true.mpr ⟨item, hitem, hcrypted⟩
  rw [any_constructExtra] at hany
  rw [anyCrypted, List.any_append, hany, Bool.true_or]

/-- A field that is written over an item of the extra has its value. -/
theorem fields_of_sublist {s : Bool} {txPub : PublicKey} {ownExtra ownAttachment : List Item}
    (hown : ∀ item ∈ ownExtra ++ ownAttachment, isOwn item = true)
    (hsublist : (originals param s).Sublist
      (readList recipient txKey key param s txPub ownExtra ownAttachment))
    {v old : Item} (hv : v ∈ updates param)
    (hfind : param.extra.find? (fun item => item.ctorIdx = v.ctorIdx) = some old) : old = v := by
  have hkind : v.ctorIdx ∉ [4, 6, 12] ∧ v.ctorIdx ≠ 0 := by
    simp only [updates, List.mem_append, List.mem_ite_nil_right, List.mem_singleton] at hv
    rcases hv with ((⟨-, rfl⟩ | ⟨-, rfl⟩) | ⟨-, rfl⟩) | rfl <;> simp [Wire.PayloadItem.ctorIdx]
  have hfilter := hsublist.filter fun item => item.ctorIdx = v.ctorIdx
  rw [filter_originals param s hkind.2, filter_readList hown hkind.1,
    returned_filter_of_ne hkind.2 (fun e he => isCrypted_constructExtra
      (map_fst_extraEntries (Ops.constructExtra param txPub) ▸ List.mem_map_of_mem he)),
    returned_filter_of_ne hkind.2 (fun e he => isCrypted_entry (List.mem_append_right _ he)),
    map_fst_extraEntries, map_fst_attachmentEntries, filter_constructExtra_of_mem hv,
    List.filter_append] at hfilter
  -- one item more in front on each side
  have hcons : param.extra.filter (fun item => item.ctorIdx = v.ctorIdx) =
      old :: (param.extra.filter fun item => item.ctorIdx = v.ctorIdx).tail := by
    rw [← List.head?_filter] at hfind
    exact (List.cons_head?_tail hfind).symm
  rw [hcons, List.tail_cons, List.cons_append, List.cons_append] at hfilter
  have heq := hfilter.eq_of_length_le (by simp)
  exact (List.cons.inj heq).1

theorem filter_originals_service (param : Param) (s : Bool) :
    (originals param s).filter (fun item => item.ctorIdx = 0) =
      (((extraEntries param.extra ++ attachmentEntries param.attachments).filter
        fun e => e.1.ctorIdx = 0).filter fun e => isFor s e.1).map
          fun e => withoutSecurity e.1 := by
  rw [originals_eq_entries, List.filter_map, List.filter_comm]
  congr 2
  refine List.filter_congr fun e _ => ?_
  change decide ((withoutSecurity e.1).ctorIdx = 0) = _
  rw [ctorIdx_withoutSecurity]

/-- The originals are among what is read exactly under the condition. -/
theorem originals_sublist_iff
    (hkey : ∀ n, ops.derivePublicKeyFromTargetAddress sender.keys.accountAddress txKey.sec n =
      .ok (some (key n)))
    {txPub : PublicKey} {ownExtra ownAttachment : List Item}
    (hown : ∀ item ∈ ownExtra ++ ownAttachment, isOwn item = true) :
    (originals param (canSpend recipient isIncome)).Sublist
        (readList recipient txKey key param (canSpend recipient isIncome) txPub ownExtra
          ownAttachment) ↔
      Survives sender recipient txKey param isIncome := by
  constructor
  · intro hsublist
    refine survives_of_returned hkey (fun v hv old => fields_of_sublist hown hsublist hv)
      fun e he hkind hfor => ?_
    have hfilter := hsublist.filter fun item => item.ctorIdx = 0
    rw [filter_originals_service, filter_readList hown (by decide), filter_extraEntries,
      filter_constructExtra_service, ← filter_extraEntries, ← List.filterMap_append,
      ← List.filter_append] at hfilter
    have hall := (map_filter_sublist_iff fun e he hfor => returned_entry_of_not_isFor
      (List.mem_of_mem_filter he) hfor).mp hfilter
    exact hall e (List.mem_filter.mpr ⟨he, by simpa using hkind⟩) hfor
  · intro hsurvives
    obtain ⟨own, hextra, -⟩ := exists_constructExtra txPub hsurvives.fields
    have hentries := filterMap_eq_map_filter
      (fun e he hfor => returned_entry hkey hsurvives he hfor)
      fun e he hfor => returned_entry_of_not_isFor he hfor
    have hsplit : extraEntries (param.extra ++ own) =
        extraEntries param.extra ++ extraEntries own := List.map_append
    rw [originals_eq_entries, ← hentries, List.filterMap_append, readList, hextra, hsplit,
      List.filterMap_append, List.append_assoc (List.filterMap _ (extraEntries param.extra))]
    exact (List.sublist_append_left _ _).append (List.sublist_append_left _ _)

/-! ## The keys that the readers find -/

theorem firstCryptoChecksum_eq_none {items : List Item}
    (h : ∀ item ∈ items, item.ctorIdx ≠ 6) : Ops.firstCryptoChecksum items = none := by
  refine List.findSome?_eq_none_iff.mpr fun item hitem => ?_
  cases item with
  | cryptoChecksum info => exact absurd rfl (h _ hitem)
  | _ => rfl

theorem findSome?_encodedExtra {α : Type} {f : Item → Option α} {txPub : PublicKey}
    (hf : ∀ item : Item, item.ctorIdx ∈ [8, 9, 10, 16] → f item = none)
    (hencoded : ∀ item, f (encodedItem recipient txKey item) = f item) :
    ((Ops.constructExtra param txPub).map (encodedItem recipient txKey)).findSome? f =
      (param.extra.findSome? f).or (f (.publicKey txPub)) := by
  have hsame : f ∘ encodedItem recipient txKey = f := funext hencoded
  rw [List.findSome?_map, hsame, findSome?_constructExtra hf]

theorem asCryptoChecksum_encodedItem (item : Item) :
    Ops.asCryptoChecksum (encodedItem recipient txKey item) = Ops.asCryptoChecksum item := by
  unfold encodedItem
  cases item <;> simp only [Ops.asCryptoChecksum]

theorem asPublicKey_encodedItem (item : Item) :
    Ops.asPublicKey (encodedItem recipient txKey item) = Ops.asPublicKey item := by
  unfold encodedItem
  cases item <;> simp only [Ops.asPublicKey]

theorem firstCryptoChecksum_encodedExtra {txPub : PublicKey}
    (hextra : ∀ item ∈ param.extra, item.ctorIdx ≠ 6) :
    Ops.firstCryptoChecksum ((Ops.constructExtra param txPub).map (encodedItem recipient txKey)) =
      none := by
  have hnone := firstCryptoChecksum_eq_none hextra
  unfold Ops.firstCryptoChecksum at hnone ⊢
  rw [findSome?_encodedExtra _ asCryptoChecksum_encodedItem, hnone]
  · rfl
  · intro item hitem
    cases item with
    | cryptoChecksum info => exact absurd hitem (by simp [Wire.PayloadItem.ctorIdx])
    | _ => rfl

/-- The first public key of the extra is the one of the transaction. -/
theorem getTxPubKeyFromExtra_encodedExtra {own : List Item}
    (hextra : ∀ item ∈ param.extra, item.ctorIdx ≠ 11) :
    Ops.getTxPubKeyFromExtra
      ((Ops.constructExtra param txKey.pub).map (encodedItem recipient txKey) ++ own) =
      txKey.pub := by
  have hnone : param.extra.findSome? Ops.asPublicKey = none := by
    refine List.findSome?_eq_none_iff.mpr fun item hitem => ?_
    cases item with
    | publicKey pub => exact absurd rfl (hextra _ hitem)
    | _ => rfl
  have hfirst : ((Ops.constructExtra param txKey.pub).map
      (encodedItem recipient txKey)).findSome? Ops.asPublicKey = some txKey.pub := by
    rw [findSome?_encodedExtra _ asPublicKey_encodedItem, hnone]
    · rfl
    · intro item hitem
      cases item with
      | publicKey pub => exact absurd hitem (by simp [Wire.PayloadItem.ctorIdx])
      | _ => rfl
  rw [Ops.getTxPubKeyFromExtra, List.findSome?_append, hfirst]
  rfl

/-- The recipient derives the key of the items, and the sender decrypts it. -/
theorem getEncryptionKeyDerivation_eq {tx : Tx} {ownExtra ownAttachment : List Item}
    (hchecksum : ∀ item ∈ param.extra ++ param.attachments, item.ctorIdx ≠ 6)
    (hpub : ∀ item ∈ param.extra, item.ctorIdx ≠ 11)
    (htx : IsConstructed sender recipient txKey key param tx ownExtra ownAttachment) :
    ops.getEncryptionKeyDerivation isIncome tx (if isIncome then recipient.keys else sender.keys) =
      .ok (if anyCrypted param then commonKey recipient txKey else nullDerivation) := by
  have hnone : Ops.firstCryptoChecksum ((places 0 param.attachments).map fun p =>
      secured (key p.2) (encodedItem recipient txKey p.1)) = none := by
    refine firstCryptoChecksum_eq_none fun item hitem => ?_
    obtain ⟨p, hp, rfl⟩ := List.mem_map.mp hitem
    have hmem : p.1 ∈ param.attachments := by
      rw [← map_fst_places 0 param.attachments]
      exact List.mem_map_of_mem hp
    rw [ctorIdx_secured, ctorIdx_encodedItem]
    exact hchecksum p.1 (List.mem_append_right _ hmem)
  have hfound : (Ops.firstCryptoChecksum tx.extra).or (Ops.firstCryptoChecksum tx.attachment) =
      if anyCrypted param then some (ownChecksum sender recipient txKey) else none := by
    rw [htx.extra_eq, htx.attachment_eq, firstCryptoChecksum_append, firstCryptoChecksum_append,
      hnone,
      firstCryptoChecksum_encodedExtra fun item h => hchecksum item (List.mem_append_left _ h),
      Option.none_or, Option.none_or, htx.checksum]
  rw [Ops.getEncryptionKeyDerivation, hfound]
  cases anyCrypted param with
  | false => rfl
  | true =>
      have hderivation : ops.readerDerivation isIncome tx.extra
          (if isIncome then recipient.keys else sender.keys) (ownChecksum sender recipient txKey) =
          .ok (some (commonKey recipient txKey)) := by
        cases isIncome with
        | false =>
            have hback : ops.chachaCryptPod Wire.keyDerivation
                (Ops.scalarBytes sender.keys.spendSecretKey)
                (ownChecksum sender recipient txKey).encryptedKeyDerivation =
                commonKey recipient txKey :=
              chachaCryptPod_chachaCryptPod isPod_keyDerivation _ _
            exact congrArg (fun derivation => Except.ok (some derivation)) hback
        | true =>
            have hpair := generateKeyDerivation_pair txKey recipient.view
            rw [CurveOps.KeyPair.derivation_comm] at hpair
            rw [Ops.readerDerivation, if_pos rfl, if_pos rfl, htx.extra_eq,
              getTxPubKeyFromExtra_encodedExtra hpub]
            exact hpair
      simp only [if_true]
      rw [hderivation]
      exact congrArg Except.ok (if_pos rfl)

theorem readerKeys_eq (sender recipient : Account ops) (isIncome : Bool) :
    (if isIncome then (if isIncome then recipient.keys else sender.keys)
        else nullAccKeys).spendSecretKey =
      (if canSpend recipient isIncome then recipient.spend.sec else nullSkey) ∧
    (canSpend recipient isIncome = true → recipient.spend.sec ≠ nullSkey) := by
  cases isIncome with
  | false => exact ⟨rfl, fun h => Bool.noConfusion h⟩
  | true =>
      by_cases hwatch : recipient.watchOnly = true
      · simp [canSpend, Account.keys, hwatch]
      · by_cases hnull : recipient.spend.sec = nullSkey <;>
          simp [canSpend, Account.keys, hwatch, hnull]

theorem filterMap_given {txPub : PublicKey} {ownExtra ownAttachment : List Item} (s : Bool) :
    ((Ops.constructExtra param txPub).map (encodedItem recipient txKey) ++ ownExtra ++
        (((places 0 param.attachments).map fun p =>
          secured (key p.2) (encodedItem recipient txKey p.1)) ++ ownAttachment)).filterMap
      (given recipient txKey (anyCrypted param) s) =
      readList recipient txKey key param s txPub ownExtra ownAttachment := by
  rw [readList, List.filterMap_append, List.filterMap_append, List.filterMap_append,
    List.filterMap_map, List.filterMap_map, extraEntries, List.filterMap_map, attachmentEntries,
    List.filterMap_map]
  rfl

/-- What `decrypt_payload_items` gives, without the `security`. -/
theorem decryptPayloadItems_eq {tx : Tx} {ownExtra ownAttachment : List Item}
    (hchecksum : ∀ item ∈ param.extra ++ param.attachments, item.ctorIdx ≠ 6)
    (hpub : ∀ item ∈ param.extra, item.ctorIdx ≠ 11)
    (htx : IsConstructed sender recipient txKey key param tx ownExtra ownAttachment) :
    ∃ items,
      ops.decryptPayloadItems isIncome tx (if isIncome then recipient.keys else sender.keys) =
        .ok items ∧
      items.map withoutSecurity = readList recipient txKey key param (canSpend recipient isIncome)
        txKey.pub ownExtra ownAttachment := by
  have htxPub : Ops.getTxPubKeyFromExtra tx.extra = txKey.pub := by
    rw [htx.extra_eq, getTxPubKeyFromExtra_encodedExtra hpub]
  obtain ⟨hspend, hsec⟩ := readerKeys_eq sender recipient isIncome
  have hlists : (tx.extra ++ tx.attachment).filterMap
      (given recipient txKey (anyCrypted param) (canSpend recipient isIncome)) =
      readList recipient txKey key param (canSpend recipient isIncome) txKey.pub ownExtra
        ownAttachment := by
    rw [htx.extra_eq, htx.attachment_eq, filterMap_given]
  rw [← hlists, Ops.decryptPayloadItems,
    getEncryptionKeyDerivation_eq hchecksum hpub htx, Run.ok_bind]
  cases anyCrypted param with
  | false =>
      refine ⟨tx.extra ++ tx.attachment, if_pos rfl, ?_⟩
      exact (congrFun List.filterMap_eq_map _).symm
  | true =>
      refine ⟨(tx.extra ++ tx.attachment).filterMap
        (readItem recipient txKey (canSpend recipient isIncome)), ?_, List.map_filterMap⟩
      have hnull : commonKey recipient txKey ≠ nullDerivation :=
        derivation_ne_null recipient.view txKey
      rw [if_pos rfl, if_neg hnull, htxPub]
      dsimp only
      rw [decryptItems_eq hspend hsec, Run.ok_bind, decryptItems_eq hspend hsec, Run.ok_bind,
        List.filterMap_append]
      rfl

end

/-! ## Reading back -/

/-- A reader is given the original items exactly under the condition. -/
theorem reads_back_iff {sender recipient : Account ops} {param : Param} {txKey : ops.KeyPair}
    {hints : List ByteString} {tx : Tx} (isIncome : Bool)
    (haddress : param.cryptAddress = recipient.keys.accountAddress)
    (hchecksum : ∀ info, .cryptoChecksum info ∉ param.extra ++ param.attachments)
    (hpub : ∀ pub, .publicKey pub ∉ param.extra)
    (h : ops.constructPayload sender.keys param txKey hints = .ok tx) :
    ReadsBack sender recipient param tx isIncome ↔
      Survives sender recipient txKey param isIncome := by
  obtain ⟨key, hkey⟩ := exists_derivedKeys sender txKey
  obtain ⟨ownExtra, ownAttachment, htx⟩ := constructPayload_ok haddress hkey h
  have hchecksum' : ∀ item ∈ param.extra ++ param.attachments, item.ctorIdx ≠ 6 := by
    intro item hitem
    cases item with
    | cryptoChecksum info => exact absurd hitem (hchecksum info)
    | _ => simp [Wire.PayloadItem.ctorIdx]
  have hpub' : ∀ item ∈ param.extra, item.ctorIdx ≠ 11 := by
    intro item hitem
    cases item with
    | publicKey pub => exact absurd hitem (hpub pub)
    | _ => simp [Wire.PayloadItem.ctorIdx]
  obtain ⟨items, hitems, hread⟩ : ∃ items,
      ops.decryptPayloadItems isIncome tx (if isIncome then recipient.keys else sender.keys) =
        .ok items ∧
      items.map withoutSecurity = readList recipient txKey key param (canSpend recipient isIncome)
        txKey.pub ownExtra ownAttachment :=
    decryptPayloadItems_eq hchecksum' hpub' htx
  have hsurvives : (originals param (canSpend recipient isIncome)).Sublist
      (items.map withoutSecurity) ↔ Survives sender recipient txKey param isIncome := by
    rw [hread]
    exact originals_sublist_iff hkey htx.own
  rw [← hsurvives]
  constructor
  · rintro ⟨items', hitems', hsublist⟩
    rwa [Except.ok.inj (hitems.symm.trans hitems')]
  · exact fun hsublist => ⟨items, hitems, hsublist⟩

/-- Five points, a stream of ones, and a byte in front of a packed body. -/
def sampleOps : Ops (ZMod 5) where
  toCurveOps := CurveOps.five
  toBytes_ne_null := by decide
  chacha8 := fun _ _ => Vector.replicate 64 1
  pack := fun body => some (0 :: body)
  unpack := fun packed => some packed.tail

/-- The accounts of the keys 2 and 3. -/
def sampleAccount (sec : Fin 2) : Account sampleOps where
  spend := CurveOps.fiveKeys sec
  view := CurveOps.fiveKeys sec
  flags := 0
  watchOnly := false

/-- A comment, and an attachment with some flags. -/
def sampleParam (flags : UInt8) : Param where
  extra := [.comment [104, 105]]
  attachments := [.serviceAttachment ⟨[83], [], [5, 6, 7], [], flags⟩]
  unlockTime := 0
  cryptAddress := (sampleAccount 1).keys.accountAddress
  expirationTime := 0
  flags := 0

/-- A deflated and encrypted attachment reaches both sides. -/
theorem reads_back_iff_sample :
    ∃ tx, sampleOps.constructPayload (sampleAccount 0).keys (sampleParam 3) (CurveOps.fiveKeys 0)
        [] = .ok tx ∧
      ReadsBack (sampleAccount 0) (sampleAccount 1) (sampleParam 3) tx true ∧
      ReadsBack (sampleAccount 0) (sampleAccount 1) (sampleParam 3) tx false := by
  obtain ⟨tx, htx, -⟩ : ∃ tx, sampleOps.constructPayload (sampleAccount 0).keys (sampleParam 3)
      (CurveOps.fiveKeys 0) [] = .ok tx ∧ True := by decide +kernel
  have hsurvives : ∀ isIncome, Survives (sampleAccount 0) (sampleAccount 1) (CurveOps.fiveKeys 0)
      (sampleParam 3) isIncome := by
    intro isIncome
    have hservice : serviceAttachments (sampleParam 3).attachments =
        [⟨[83], [], [5, 6, 7], [], 3⟩] := rfl
    refine ⟨by decide, fun sa hsa _ => ?_, fun sa hsa => ?_, fun n sa hsa _ _ hadds => ?_⟩
    · obtain rfl : sa = ⟨[83], [], [5, 6, 7], [], 3⟩ := by simpa [sampleParam] using hsa
      exact fun _ => by decide +kernel
    · exact absurd hsa (by simp [sampleParam])
    · rw [hservice] at hsa
      obtain rfl := List.mem_singleton.mp (List.mem_of_getElem? hsa)
      exact absurd hadds (by decide)
  have hiff := fun isIncome => reads_back_iff isIncome rfl (by simp [sampleParam])
    (by simp [sampleParam]) htx
  exact ⟨tx, htx, (hiff true).mpr (hsurvives true), (hiff false).mpr (hsurvives false)⟩

/-- An attachment with a proof reaches no one. -/
theorem proof_not_read :
    ∃ tx, sampleOps.constructPayload (sampleAccount 0).keys (sampleParam 9) (CurveOps.fiveKeys 0)
        [] = .ok tx ∧
      ¬ ReadsBack (sampleAccount 0) (sampleAccount 1) (sampleParam 9) tx true ∧
      ¬ ReadsBack (sampleAccount 0) (sampleAccount 1) (sampleParam 9) tx false := by
  decide +kernel

end Payload
end Chinet
