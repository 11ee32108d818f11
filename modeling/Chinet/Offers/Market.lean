import Chinet.Lib.TwoIndexed
import Chinet.Storage.Chain

/-!
# The market

`bc_offers_service` keeps the offers that the service attachments of the blockchain
add, update and cancel.  When a block is taken off the chain, `handle_entry_pop` gets
the entries of the block in reverse order and has to undo them; it has only the entry
and the container to do so.
-/

namespace Chinet

/-! ## Data -/

structure OfferDetails where
  offerType : UInt8
  amountPrimary : UInt64
  amountTarget : UInt64
  bonus : ByteString
  target : ByteString
  primary : ByteString
  locationCountry : ByteString
  locationCity : ByteString
  contacts : ByteString
  comment : ByteString
  paymentTypes : ByteString
  dealOption : ByteString
  category : ByteString
  previewUrl : ByteString
  expirationTime : UInt8
deriving DecidableEq

/-- `offer_details_ex_with_hash`.  `nxt_offer` is the hexadecimal text of an id, or
empty.  A timestamp is the time of a block, in seconds. -/
structure OfferDetailsExWithHash extends OfferDetails where
  txHash : Hash
  txOriginalHash : Hash
  indexInTx : UInt64
  timestamp : Nat
  fee : UInt64
  security : PublicKey
  stopped : Bool
  h : Hash
  nxtOffer : Option Hash
deriving DecidableEq

structure CancelOffer where
  txId : Hash
  offerIndex : UInt64
  sig : Signature

structure UpdateOffer where
  txId : Hash
  offerIndex : UInt64
  sig : Signature
  of : OfferDetails

/-- `offers_container` with its indexes by id and by timestamp. -/
abbrev OffersContainer :=
  TwoIndexed OfferDetailsExWithHash.h OfferDetailsExWithHash.timestamp

/-- What the market takes from the libraries: `zlib_helper::unpack`, `load_t_from_json`
for the three kinds of instructions, and `cn_fast_hash` of `make_offer_sig_blob`. -/
structure OffersEnv where
  crypto : CryptoPrimitives
  unpack : ByteString → Option ByteString
  loadOfferDetails : ByteString → Option OfferDetails
  loadUpdateOffer : ByteString → Option UpdateOffer
  loadCancelOffer : ByteString → Option CancelOffer
  updateSigHash : UpdateOffer → Hash
  cancelSigHash : CancelOffer → Hash

/-- The arguments of `handle_entry_push` and `handle_entry_pop`, with the fields of the
attachment that they read.  `coreTime` is what `get_core_time` returns when the entry
is taken back. -/
structure MarketEntry where
  instruction : ByteString
  body : ByteString
  security : List PublicKey
  i : UInt64
  tx : Transaction
  h : Nat
  timestamp : Nat
  coreTime : Nat

/-- The instruction in a body; `invalid` is one that is unknown or has no JSON of its
kind. -/
inductive MarketInstruction
  | add (od : OfferDetails)
  | update (uo : UpdateOffer)
  | cancel (co : CancelOffer)
  | invalid

structure BcOffersService where
  offers : OffersContainer
  lastTrimedHeight : Nat
  disabled : Bool

/-- `"ADD"` -/
def bcOffersServiceInstructionAdd : ByteString := [65, 68, 68]

/-- `"UPD"` -/
def bcOffersServiceInstructionUpd : ByteString := [85, 80, 68]

/-- `"DEL"` -/
def bcOffersServiceInstructionDel : ByteString := [68, 69, 76]

def offerMaximumLifeTime : Nat := 60 * 60 * 24 * 30

/-! ## Offers -/

def offerIdFromHashAndIndex (txId : Hash) (index : UInt64) : Hash :=
  txId ^^^ index.toBitVec.setWidth 256

/-- The variant tag of a `tx_service_attachment` is 12. -/
def getServiceAttachmentsCountInTx (tx : Transaction) : Nat :=
  tx.attachment.countP fun item =>
    match item with
    | .other 12 _ => true
    | _ => false

namespace OffersContainer

def setStopped (id : Hash) (stopped : Bool) (offers : OffersContainer) : OffersContainer :=
  offers.modify (fun o => if o.h = id then { o with stopped } else o)
    (fun o => by by_cases ho : o.h = id <;> simp [ho])
    (fun o => by by_cases ho : o.h = id <;> simp [ho])

def setNxtOffer (id : Hash) (nxtOffer : Option Hash) (offers : OffersContainer) :
    OffersContainer :=
  offers.modify (fun o => if o.h = id then { o with nxtOffer } else o)
    (fun o => by by_cases ho : o.h = id <;> simp [ho])
    (fun o => by by_cases ho : o.h = id <;> simp [ho])

end OffersContainer

variable (env : OffersEnv)

/-- The id of the offer that an entry would make. -/
def MarketEntry.offerId (e : MarketEntry) : Hash :=
  offerIdFromHashAndIndex (getTransactionHash env.crypto e.tx) e.i

/-- The offer that `handle_push` fills in for an `ADD` or an `UPD`. -/
def MarketEntry.newOffer (e : MarketEntry) (od : OfferDetails) (security : PublicKey)
    (timestamp : Nat) : OfferDetailsExWithHash where
  toOfferDetails := od
  txHash := getTransactionHash env.crypto e.tx
  txOriginalHash := 0
  indexInTx := e.i
  timestamp := timestamp
  fee := getTxFee e.tx.toTransactionPrefix / UInt64.ofNat (getServiceAttachmentsCountInTx e.tx)
  security := security
  stopped := false
  h := e.offerId env
  nxtOffer := none

def MarketEntry.read (e : MarketEntry) : Option MarketInstruction :=
  (env.unpack e.body).map fun jsonBuff =>
    if e.instruction = bcOffersServiceInstructionAdd then
      (env.loadOfferDetails jsonBuff).elim .invalid .add
    else if e.instruction = bcOffersServiceInstructionUpd then
      (env.loadUpdateOffer jsonBuff).elim .invalid .update
    else if e.instruction = bcOffersServiceInstructionDel then
      (env.loadCancelOffer jsonBuff).elim .invalid .cancel
    else .invalid

/-- `validate_modify_order_signature` -/
def validateModifyOrderSignature (odeh : OfferDetailsExWithHash) (sigHash : Hash)
    (sig : Signature) : Bool :=
  !odeh.stopped && env.crypto.checkSignature sigHash odeh.security sig

/-! ## Pushes

A push or a pop that returns false has changed nothing and is `none` here. -/

def handlePushAdd (od : OfferDetails) (e : MarketEntry) (offers : OffersContainer) :
    Option OffersContainer :=
  e.security.getLast?.map fun security =>
    offers.insert (e.newOffer env od security e.timestamp)

def handlePushUpdate (uo : UpdateOffer) (e : MarketEntry) (offers : OffersContainer) :
    Option OffersContainer :=
  let offerId := offerIdFromHashAndIndex uo.txId uo.offerIndex
  match offers.find? offerId with
  | none => none
  | some it =>
      if validateModifyOrderSignature env it (env.updateSigHash uo) uo.sig then
        e.security.getLast?.map fun security =>
          let newOff := e.newOffer env uo.of security it.timestamp
          OffersContainer.setStopped offerId true
            (OffersContainer.setNxtOffer offerId (some newOff.h) (offers.insert newOff))
      else none

def handlePushCancel (co : CancelOffer) (offers : OffersContainer) : Option OffersContainer :=
  let offerId := offerIdFromHashAndIndex co.txId co.offerIndex
  match offers.find? offerId with
  | none => none
  | some it =>
      if validateModifyOrderSignature env it (env.cancelSigHash co) co.sig then
        some (OffersContainer.setStopped offerId true offers)
      else none

def handlePush (e : MarketEntry) (offers : OffersContainer) :
    MarketInstruction → Option OffersContainer
  | .add od => handlePushAdd env od e offers
  | .update uo => handlePushUpdate env uo e offers
  | .cancel co => handlePushCancel env co offers
  | .invalid => none

def BcOffersService.handleEntryPush (e : MarketEntry) (s : BcOffersService) : BcOffersService :=
  if s.disabled then s
  else
    match e.read env with
    | none => s
    | some instruction => { s with offers := (handlePush env e s.offers instruction).getD s.offers }

/-! ## Pops -/

def handlePopAdd (e : MarketEntry) (offers : OffersContainer) : Option OffersContainer :=
  match offers.find? (e.offerId env) with
  | none => some offers
  | some _ => some (offers.erase (e.offerId env))

def handlePopUpdate (uo : UpdateOffer) (e : MarketEntry) (offers : OffersContainer) :
    Option OffersContainer :=
  let originalOid := offerIdFromHashAndIndex uo.txId uo.offerIndex
  match offers.find? (e.offerId env), offers.find? originalOid with
  | some _, some _ =>
      some ((OffersContainer.setNxtOffer originalOid none
        (OffersContainer.setStopped originalOid false offers)).erase (e.offerId env))
  | _, _ => none

def handlePopCancel (co : CancelOffer) (offers : OffersContainer) : Option OffersContainer :=
  let offerId := offerIdFromHashAndIndex co.txId co.offerIndex
  match offers.find? offerId with
  | none => none
  | some oit => if oit.stopped then some (OffersContainer.setStopped offerId false offers) else none

def handlePop (e : MarketEntry) (offers : OffersContainer) :
    MarketInstruction → Option OffersContainer
  | .add _ => handlePopAdd env e offers
  | .update uo => handlePopUpdate env uo e offers
  | .cancel co => handlePopCancel co offers
  | .invalid => none

def OfferDetailsExWithHash.expired (currentTime : Nat) (o : OfferDetailsExWithHash) : Bool :=
  o.timestamp + offerMaximumLifeTime < currentTime

/-- `trim_offers` -/
def trimOffers (currentTime : Nat) (offers : OffersContainer) : OffersContainer :=
  offers.dropWhile (OfferDetailsExWithHash.expired currentTime)

def BcOffersService.handleEntryPop (e : MarketEntry) (s : BcOffersService) : BcOffersService :=
  if s.disabled then s
  else
    match e.read env with
    | none => s
    | some instruction =>
        let s' := { s with offers := (handlePop env e s.offers instruction).getD s.offers }
        if s'.lastTrimedHeight ≠ e.h ∧ e.h % currencyBlocksPerDay = 0 then
          { s' with offers := trimOffers e.coreTime s'.offers, lastTrimedHeight := e.h }
        else s'

def BcOffersService.pushEntries (entries : List MarketEntry) (s : BcOffersService) :
    BcOffersService :=
  entries.foldl (fun s e => s.handleEntryPush env e) s

/-- The entries are taken back from the last to the first. -/
def BcOffersService.popEntries (entries : List MarketEntry) (s : BcOffersService) :
    BcOffersService :=
  entries.reverse.foldl (fun s e => s.handleEntryPop env e) s

/-! ## What is found afterwards -/

namespace OffersContainer

theorem find?_setStopped (id : Hash) (stopped : Bool) (offers : OffersContainer) (k : Hash) :
    (OffersContainer.setStopped id stopped offers).find? k =
      (offers.find? k).map fun o => if k = id then { o with stopped } else o := by
  rw [OffersContainer.setStopped, TwoIndexed.find?_modify]
  refine Option.map_congr fun o ho => ?_
  rw [(TwoIndexed.find?_eq_some.mp ho).2]

theorem find?_setNxtOffer (id : Hash) (nxtOffer : Option Hash) (offers : OffersContainer)
    (k : Hash) :
    (OffersContainer.setNxtOffer id nxtOffer offers).find? k =
      (offers.find? k).map fun o => if k = id then { o with nxtOffer } else o := by
  rw [OffersContainer.setNxtOffer, TwoIndexed.find?_modify]
  refine Option.map_congr fun o ho => ?_
  rw [(TwoIndexed.find?_eq_some.mp ho).2]

/-- The offers that are trimmed are all that have expired. -/
theorem find?_trimOffers (currentTime : Nat) (offers : OffersContainer) (k : Hash) :
    (trimOffers currentTime offers).find? k =
      (offers.find? k).filter fun o => !o.expired currentTime := by
  have hdown : ∀ a b : OfferDetailsExWithHash, a.timestamp ≤ b.timestamp →
      b.expired currentTime = true → a.expired currentTime = true := by
    intro a b hle hb
    simp only [OfferDetailsExWithHash.expired, decide_eq_true_eq] at hb ⊢
    omega
  rw [trimOffers, TwoIndexed.dropWhile_eq_filter hdown, TwoIndexed.find?_filter]

end OffersContainer

/-! ## Undoing

What the entries leave of an offer, after they were pushed and taken back, can be said
for each offer of its own: whether it was trimmed, and its flags. -/

/-- The entry cancels the offer, with or without the right to do so. -/
def MarketEntry.namesForCancel (e : MarketEntry) (o : OfferDetailsExWithHash) : Bool :=
  match e.read env with
  | some (.cancel co) => offerIdFromHashAndIndex co.txId co.offerIndex == o.h
  | _ => false

/-- A cancellation that is accepted while the offer is not stopped. -/
def MarketEntry.validCancel (e : MarketEntry) (o : OfferDetailsExWithHash) : Bool :=
  match e.read env with
  | some (.cancel co) =>
      offerIdFromHashAndIndex co.txId co.offerIndex == o.h &&
        env.crypto.checkSignature (env.cancelSigHash co) o.security co.sig
  | _ => false

/-- An update that is accepted while the offer is not stopped. -/
def MarketEntry.validUpdate (e : MarketEntry) (o : OfferDetailsExWithHash) : Bool :=
  match e.read env with
  | some (.update uo) =>
      offerIdFromHashAndIndex uo.txId uo.offerIndex == o.h &&
        env.crypto.checkSignature (env.updateSigHash uo) o.security uo.sig &&
          e.security.getLast?.isSome
  | _ => false

/-- The first entry that changes the offer, if it is not stopped before, is an update. -/
def firstChangeUpdates (entries : List MarketEntry) (o : OfferDetailsExWithHash) : Bool :=
  match entries.find? fun e => e.validCancel env o || e.validUpdate env o with
  | none => false
  | some e => e.validUpdate env o

/-- The flags of an offer after the entries were pushed and taken back. -/
def undone (entries : List MarketEntry) (o : OfferDetailsExWithHash) : OfferDetailsExWithHash :=
  if o.stopped then
    if entries.any fun e => e.namesForCancel env o then { o with stopped := false } else o
  else if firstChangeUpdates env entries o then { o with nxtOffer := none }
  else o

/-- The times at which the market is trimmed while the entries are taken back, and the
height at which it is last trimmed afterwards. -/
def trimTimes (lastTrimedHeight : Nat) : List MarketEntry → List Nat × Nat
  | [] => ([], lastTrimedHeight)
  | e :: rest =>
      let (times, last) := trimTimes lastTrimedHeight rest
      if (e.read env).isSome ∧ last ≠ e.h ∧ e.h % currencyBlocksPerDay = 0 then
        (e.coreTime :: times, e.h)
      else (times, last)

def survives (times : List Nat) (o : OfferDetailsExWithHash) : Bool :=
  times.all fun now => !o.expired now

/-- Every entry has a place of its own, a transaction and an index, and the market has
only offers of earlier places. -/
structure InBlockOrder (entries : List MarketEntry) (offers : OffersContainer) : Prop where
  distinct : (entries.map (MarketEntry.offerId env)).Nodup
  fresh : ∀ e ∈ entries, offers.find? (e.offerId env) = none

variable {env}

theorem namesForCancel_of_validCancel {e : MarketEntry} {o : OfferDetailsExWithHash}
    (h : e.validCancel env o = true) : e.namesForCancel env o = true := by
  unfold MarketEntry.validCancel at h
  unfold MarketEntry.namesForCancel
  cases hread : e.read env with
  | none => simp [hread] at h
  | some instruction =>
      cases instruction with
      | cancel co =>
          simp only [hread, Bool.and_eq_true] at h
          exact h.1
      | add | update | invalid => simp [hread] at h

/-- An entry that does not concern the offer. -/
theorem undone_cons_of_not {e : MarketEntry} {rest : List MarketEntry}
    {o : OfferDetailsExWithHash} (hcancel : e.namesForCancel env o = false)
    (hupdate : o.stopped = false → e.validUpdate env o = false) :
    undone env (e :: rest) o = undone env rest o := by
  unfold undone
  rw [List.any_cons, hcancel, Bool.false_or]
  cases hstopped : o.stopped with
  | true => rfl
  | false =>
      have hvalid : e.validCancel env o = false := by
        cases h : e.validCancel env o with
        | false => rfl
        | true => exact absurd (namesForCancel_of_validCancel h) (by simp [hcancel])
      have hfirst : firstChangeUpdates env (e :: rest) o = firstChangeUpdates env rest o := by
        rw [firstChangeUpdates, List.find?_cons_of_neg (by simp [hvalid, hupdate hstopped])]
        rfl
      rw [hfirst]

theorem undone_h (entries : List MarketEntry) (o : OfferDetailsExWithHash) :
    (undone env entries o).h = o.h ∧ (undone env entries o).timestamp = o.timestamp := by
  unfold undone
  cases o.stopped with
  | true =>
      cases entries.any fun e => e.namesForCancel env o <;> exact ⟨rfl, rfl⟩
  | false =>
      cases firstChangeUpdates env entries o <;> exact ⟨rfl, rfl⟩

theorem undone_of_live {entries : List MarketEntry} {o : OfferDetailsExWithHash}
    (h : o.stopped = false) : (undone env entries o).stopped = false := by
  unfold undone
  rw [if_neg (by simp [h])]
  by_cases hfirst : firstChangeUpdates env entries o = true
  · rw [if_pos hfirst]
    exact h
  · rw [if_neg hfirst]
    exact h

/-- What the pushed and taken back entries leave at an id. -/
def leftBy (env : OffersEnv) (surv : OfferDetailsExWithHash → Bool) (entries : List MarketEntry)
    (offers : OffersContainer) (k : Hash) : Option OfferDetailsExWithHash :=
  ((offers.find? k).filter surv).map (undone env entries)

theorem leftBy_of_none {surv : OfferDetailsExWithHash → Bool} {entries : List MarketEntry}
    {offers : OffersContainer} {k : Hash} (h : offers.find? k = none) :
    leftBy env surv entries offers k = none := by
  rw [leftBy, h]
  rfl

theorem leftBy_of_some {surv : OfferDetailsExWithHash → Bool} {entries : List MarketEntry}
    {offers : OffersContainer} {k : Hash} {o : OfferDetailsExWithHash}
    (h : offers.find? k = some o) :
    leftBy env surv entries offers k = if surv o then some (undone env entries o) else none := by
  rw [leftBy, h, Option.filter_some]
  cases surv o <;> rfl

theorem leftBy_congr {surv : OfferDetailsExWithHash → Bool} {entries : List MarketEntry}
    {offers offers' : OffersContainer} {k : Hash} (h : offers.find? k = offers'.find? k) :
    leftBy env surv entries offers k = leftBy env surv entries offers' k := by
  rw [leftBy, leftBy, h]

/-- An entry that does not concern the offer at an id. -/
theorem leftBy_cons_of_not {surv : OfferDetailsExWithHash → Bool} {e : MarketEntry}
    {rest : List MarketEntry} {offers : OffersContainer} {k : Hash}
    (h : ∀ o, offers.find? k = some o → e.namesForCancel env o = false ∧
      (o.stopped = false → e.validUpdate env o = false)) :
    leftBy env surv (e :: rest) offers k = leftBy env surv rest offers k := by
  cases ho : offers.find? k with
  | none => rw [leftBy_of_none ho, leftBy_of_none ho]
  | some o =>
      obtain ⟨hcancel, hupdate⟩ := h o ho
      rw [leftBy_of_some ho, leftBy_of_some ho, undone_cons_of_not hcancel hupdate]

/-! ### Additions -/

theorem find?_handlePopAdd (e : MarketEntry) (c : OffersContainer) (k : Hash) :
    ((handlePopAdd env e c).getD c).find? k = if k = e.offerId env then none else c.find? k := by
  unfold handlePopAdd
  cases hfound : c.find? (e.offerId env) with
  | none =>
      by_cases hk : k = e.offerId env
      · rw [if_pos hk, hk]
        exact hfound
      · rw [if_neg hk]
        rfl
  | some o => exact TwoIndexed.find?_erase _ _ _

theorem undo_add {surv : OfferDetailsExWithHash → Bool} {e : MarketEntry}
    {rest : List MarketEntry} {offers c : OffersContainer} {od : OfferDetails}
    (hread : e.read env = some (.add od)) (hfresh : offers.find? (e.offerId env) = none)
    (hc : ∀ k, c.find? k = leftBy env surv rest ((handlePushAdd env od e offers).getD offers) k)
    (k : Hash) :
    ((handlePopAdd env e c).getD c).find? k = leftBy env surv (e :: rest) offers k := by
  rw [find?_handlePopAdd]
  by_cases hk : k = e.offerId env
  · rw [if_pos hk, hk, leftBy_of_none hfresh]
  · have hsame : ((handlePushAdd env od e offers).getD offers).find? k = offers.find? k := by
      unfold handlePushAdd
      cases e.security.getLast? with
      | none => rfl
      | some security =>
          refine (TwoIndexed.find?_insert _ _ _).trans (if_neg ?_)
          rintro ⟨hid, -⟩
          exact hk hid.symm
    rw [if_neg hk, hc k, leftBy_congr hsame]
    refine (leftBy_cons_of_not fun o _ => ?_).symm
    simp [MarketEntry.namesForCancel, MarketEntry.validUpdate, hread]

/-! ### Cancellations -/

theorem find?_handlePopCancel (co : CancelOffer) (c : OffersContainer) (k : Hash) :
    ((handlePopCancel co c).getD c).find? k = (c.find? k).map fun o =>
      if k = offerIdFromHashAndIndex co.txId co.offerIndex then { o with stopped := false } else o := by
  unfold handlePopCancel
  dsimp only
  cases hfound : c.find? (offerIdFromHashAndIndex co.txId co.offerIndex) with
  | none =>
      by_cases hk : k = offerIdFromHashAndIndex co.txId co.offerIndex
      · rw [hk, hfound]
        exact hfound
      · simp only [if_neg hk]
        exact (Option.map_id' ..).symm
  | some oit =>
      cases hstopped : oit.stopped with
      | true =>
          simp only [hstopped, if_true]
          exact OffersContainer.find?_setStopped _ _ _ _
      | false =>
          simp only [hstopped, Bool.false_eq_true, if_false]
          by_cases hk : k = offerIdFromHashAndIndex co.txId co.offerIndex
          · subst hk
            have hself : { oit with stopped := false } = oit := by rw [← hstopped]
            simp only [if_true, hfound, Option.map_some, hself]
            exact hfound
          · simp only [if_neg hk]
            exact (Option.map_id' ..).symm

theorem find?_handlePushCancel (co : CancelOffer) (offers : OffersContainer) (k : Hash) :
    ((handlePushCancel env co offers).getD offers).find? k = (offers.find? k).map fun o =>
      if k = offerIdFromHashAndIndex co.txId co.offerIndex ∧
          validateModifyOrderSignature env o (env.cancelSigHash co) co.sig = true then
        { o with stopped := true }
      else o := by
  unfold handlePushCancel
  dsimp only
  by_cases hk : k = offerIdFromHashAndIndex co.txId co.offerIndex
  · subst hk
    cases hfound : offers.find? (offerIdFromHashAndIndex co.txId co.offerIndex) with
    | none => exact hfound
    | some it =>
        dsimp only
        cases hvalid : validateModifyOrderSignature env it (env.cancelSigHash co) co.sig with
        | true =>
            refine (OffersContainer.find?_setStopped _ _ _ _).trans ?_
            rw [hfound, Option.map_some, Option.map_some, if_pos rfl, if_pos ⟨rfl, hvalid⟩]
        | false =>
            refine hfound.trans ?_
            rw [Option.map_some, if_neg fun h => absurd (hvalid.symm.trans h.2) (by decide)]
  · have hother : ∀ o : OfferDetailsExWithHash, (if k = offerIdFromHashAndIndex co.txId
        co.offerIndex ∧ validateModifyOrderSignature env o (env.cancelSigHash co) co.sig = true then
          { o with stopped := true } else o) = o := fun o => if_neg fun h => hk h.1
    simp only [hother, Option.map_id']
    cases offers.find? (offerIdFromHashAndIndex co.txId co.offerIndex) with
    | none => rfl
    | some it =>
        dsimp only
        cases validateModifyOrderSignature env it (env.cancelSigHash co) co.sig with
        | false => rfl
        | true =>
            refine (OffersContainer.find?_setStopped _ _ _ _).trans ?_
            simp only [if_neg hk, Option.map_id']

theorem MarketEntry.namesForCancel_eq {e : MarketEntry} {co : CancelOffer}
    (hread : e.read env = some (.cancel co)) (o : OfferDetailsExWithHash) :
    e.namesForCancel env o = (offerIdFromHashAndIndex co.txId co.offerIndex == o.h) := by
  simp [MarketEntry.namesForCancel, hread]

theorem MarketEntry.not_validUpdate_of_cancel {e : MarketEntry} {co : CancelOffer}
    (hread : e.read env = some (.cancel co)) (o : OfferDetailsExWithHash) :
    e.validUpdate env o = false := by
  simp [MarketEntry.validUpdate, hread]

/-- The offer that an accepted cancellation stopped is the one that was there. -/
theorem undone_accepted_cancel {e : MarketEntry} (rest : List MarketEntry) {co : CancelOffer}
    {it : OfferDetailsExWithHash} (hread : e.read env = some (.cancel co))
    (hid : it.h = offerIdFromHashAndIndex co.txId co.offerIndex)
    (hvalid : validateModifyOrderSignature env it (env.cancelSigHash co) co.sig = true) :
    { undone env rest { it with stopped := true } with stopped := false } =
      undone env (e :: rest) it := by
  obtain ⟨hlive, hsig⟩ : it.stopped = false ∧
      env.crypto.checkSignature (env.cancelSigHash co) it.security co.sig = true := by
    simpa [validateModifyOrderSignature] using hvalid
  have haccepted : e.validCancel env it = true := by
    simp [MarketEntry.validCancel, hread, hid, hsig]
  have hfirst : firstChangeUpdates env (e :: rest) it = false := by
    rw [firstChangeUpdates, List.find?_cons_of_pos (by simp [haccepted])]
    exact MarketEntry.not_validUpdate_of_cancel hread it
  have hafter : undone env (e :: rest) it = it := by
    unfold undone
    rw [hlive, hfirst]
    rfl
  have hself : { it with stopped := false } = it := by rw [← hlive]
  rw [hafter]
  unfold undone
  simp only [if_true]
  cases rest.any fun e => e.namesForCancel env { it with stopped := true } with
  | true => exact hself
  | false => exact hself

/-- A refused cancellation makes a stopped offer live when it is popped. -/
theorem undone_refused_cancel {e : MarketEntry} (rest : List MarketEntry) {co : CancelOffer}
    {it : OfferDetailsExWithHash} (hread : e.read env = some (.cancel co))
    (hid : it.h = offerIdFromHashAndIndex co.txId co.offerIndex)
    (hvalid : validateModifyOrderSignature env it (env.cancelSigHash co) co.sig = false) :
    { undone env rest it with stopped := false } = undone env (e :: rest) it := by
  have hupdate := MarketEntry.not_validUpdate_of_cancel hread it
  cases hstopped : it.stopped with
  | true =>
      have hname : e.namesForCancel env it = true := by
        simp [MarketEntry.namesForCancel_eq hread, hid]
      unfold undone
      rw [hstopped, List.any_cons, hname]
      simp only [if_true, Bool.true_or]
      cases rest.any fun e => e.namesForCancel env it <;> rfl
  | false =>
      have hrefused : e.validCancel env it = false := by
        simpa [validateModifyOrderSignature, hstopped, MarketEntry.validCancel, hread, hid]
          using hvalid
      have hfirst : firstChangeUpdates env (e :: rest) it = firstChangeUpdates env rest it := by
        rw [firstChangeUpdates, List.find?_cons_of_neg (by simp [hrefused, hupdate])]
        rfl
      have hafter : undone env (e :: rest) it = undone env rest it := by
        unfold undone
        rw [hstopped, hfirst]
        rfl
      rw [hafter, ← undone_of_live hstopped]

/-- The offer that a cancellation stopped is live again, and one that was stopped
before is now live. -/
theorem undo_cancel {surv : OfferDetailsExWithHash → Bool} {e : MarketEntry}
    {rest : List MarketEntry} {offers c : OffersContainer} {co : CancelOffer}
    (hsurv : ∀ a b : OfferDetailsExWithHash, a.timestamp = b.timestamp → surv a = surv b)
    (hread : e.read env = some (.cancel co))
    (hc : ∀ k, c.find? k = leftBy env surv rest ((handlePushCancel env co offers).getD offers) k)
    (k : Hash) :
    ((handlePopCancel co c).getD c).find? k = leftBy env surv (e :: rest) offers k := by
  rw [find?_handlePopCancel, hc k]
  have hpushed := @find?_handlePushCancel env co offers k
  by_cases hk : k = offerIdFromHashAndIndex co.txId co.offerIndex
  · simp only [if_pos hk]
    cases hfound : offers.find? k with
    | none =>
        rw [hfound, Option.map_none] at hpushed
        rw [leftBy_of_none hfound, leftBy_of_none hpushed]
        rfl
    | some it =>
        have hid : it.h = offerIdFromHashAndIndex co.txId co.offerIndex :=
          (TwoIndexed.find?_eq_some.mp hfound).2.trans hk
        rw [hfound, Option.map_some] at hpushed
        cases hvalid : validateModifyOrderSignature env it (env.cancelSigHash co) co.sig with
        | true =>
            rw [if_pos ⟨hk, hvalid⟩] at hpushed
            rw [leftBy_of_some hpushed, leftBy_of_some hfound,
              hsurv { it with stopped := true } it rfl]
            cases surv it with
            | false => rfl
            | true => exact congrArg some (undone_accepted_cancel rest hread hid hvalid)
        | false =>
            rw [if_neg fun h => absurd (hvalid.symm.trans h.2) (by decide)] at hpushed
            rw [leftBy_of_some hpushed, leftBy_of_some hfound]
            cases surv it with
            | false => rfl
            | true => exact congrArg some (undone_refused_cancel rest hread hid hvalid)
  · -- the cancellation is about another offer
    have hsame : ((handlePushCancel env co offers).getD offers).find? k = offers.find? k := by
      rw [hpushed]
      simp only [hk, false_and, if_false, Option.map_id']
    simp only [if_neg hk, Option.map_id']
    rw [leftBy_congr hsame]
    refine (leftBy_cons_of_not fun o ho =>
      ⟨?_, fun _ => MarketEntry.not_validUpdate_of_cancel hread o⟩).symm
    rw [MarketEntry.namesForCancel_eq hread, (TwoIndexed.find?_eq_some.mp ho).2]
    simpa using fun h : offerIdFromHashAndIndex co.txId co.offerIndex = k => hk h.symm

/-! ### Updates -/

theorem handlePopUpdate_of_none {uo : UpdateOffer} {e : MarketEntry} {c : OffersContainer}
    (h : c.find? (e.offerId env) = none) : handlePopUpdate env uo e c = none := by
  unfold handlePopUpdate
  dsimp only
  rw [h]

theorem find?_handlePopUpdate {uo : UpdateOffer} {e : MarketEntry} {c : OffersContainer}
    (hnew : (c.find? (e.offerId env)).isSome)
    (hold : (c.find? (offerIdFromHashAndIndex uo.txId uo.offerIndex)).isSome) (k : Hash) :
    ((handlePopUpdate env uo e c).getD c).find? k =
      if k = e.offerId env then none
      else (c.find? k).map fun o =>
        if k = offerIdFromHashAndIndex uo.txId uo.offerIndex then
          { o with stopped := false, nxtOffer := none }
        else o := by
  obtain ⟨new, hnew⟩ := Option.isSome_iff_exists.mp hnew
  obtain ⟨old, hold⟩ := Option.isSome_iff_exists.mp hold
  unfold handlePopUpdate
  dsimp only
  rw [hnew, hold]
  simp only [Option.getD_some]
  rw [TwoIndexed.find?_erase, OffersContainer.find?_setNxtOffer, OffersContainer.find?_setStopped,
    Option.map_map]
  by_cases hk : k = offerIdFromHashAndIndex uo.txId uo.offerIndex
  · simp only [if_pos hk]
    rfl
  · simp only [if_neg hk]
    rfl

theorem MarketEntry.namesForCancel_of_update {e : MarketEntry} {uo : UpdateOffer}
    (hread : e.read env = some (.update uo)) (o : OfferDetailsExWithHash) :
    e.namesForCancel env o = false := by
  simp [MarketEntry.namesForCancel, hread]

theorem MarketEntry.validUpdate_eq {e : MarketEntry} {uo : UpdateOffer}
    (hread : e.read env = some (.update uo)) (o : OfferDetailsExWithHash) :
    e.validUpdate env o =
      (offerIdFromHashAndIndex uo.txId uo.offerIndex == o.h &&
        env.crypto.checkSignature (env.updateSigHash uo) o.security uo.sig &&
          e.security.getLast?.isSome) := by
  simp [MarketEntry.validUpdate, hread]

/-- An update is about one offer only. -/
theorem leftBy_update_of_ne {surv : OfferDetailsExWithHash → Bool} {e : MarketEntry}
    {rest : List MarketEntry} {offers : OffersContainer} {uo : UpdateOffer} {k : Hash}
    (hread : e.read env = some (.update uo))
    (hk : k ≠ offerIdFromHashAndIndex uo.txId uo.offerIndex) :
    leftBy env surv (e :: rest) offers k = leftBy env surv rest offers k := by
  refine leftBy_cons_of_not fun o ho => ⟨e.namesForCancel_of_update hread o, fun _ => ?_⟩
  have hother : (offerIdFromHashAndIndex uo.txId uo.offerIndex == k) = false := by
    simpa using fun h => hk (Eq.symm h)
  rw [MarketEntry.validUpdate_eq hread, (TwoIndexed.find?_eq_some.mp ho).2, hother]
  rfl

/-- An update is refused, or it stops the live offer that it names and adds another. -/
theorem handlePushUpdate_cases {e : MarketEntry} {uo : UpdateOffer}
    (hread : e.read env = some (.update uo)) (offers : OffersContainer) :
    (handlePushUpdate env uo e offers = none ∧
      ∀ o, offers.find? (offerIdFromHashAndIndex uo.txId uo.offerIndex) = some o →
        o.stopped = false → e.validUpdate env o = false) ∨
    ∃ it security, offers.find? (offerIdFromHashAndIndex uo.txId uo.offerIndex) = some it ∧
      it.stopped = false ∧ e.validUpdate env it = true ∧
      handlePushUpdate env uo e offers =
        some (OffersContainer.setStopped (offerIdFromHashAndIndex uo.txId uo.offerIndex) true
          (OffersContainer.setNxtOffer (offerIdFromHashAndIndex uo.txId uo.offerIndex)
            (some (e.offerId env))
            (offers.insert (e.newOffer env uo.of security it.timestamp)))) := by
  have hvalid := MarketEntry.validUpdate_eq hread
  unfold handlePushUpdate
  dsimp only
  cases hfound : offers.find? (offerIdFromHashAndIndex uo.txId uo.offerIndex) with
  | none => exact .inl ⟨rfl, nofun⟩
  | some it =>
      dsimp only
      cases hmodify : validateModifyOrderSignature env it (env.updateSigHash uo) uo.sig with
      | false =>
          refine .inl ⟨rfl, fun o ho hlive => ?_⟩
          obtain rfl := Option.some.inj ho
          have hsig : env.crypto.checkSignature (env.updateSigHash uo) it.security uo.sig =
              false := by
            simpa [validateModifyOrderSignature, hlive] using hmodify
          simp [hvalid, hsig]
      | true =>
          obtain ⟨hlive, hsig⟩ : it.stopped = false ∧
              env.crypto.checkSignature (env.updateSigHash uo) it.security uo.sig = true := by
            simpa [validateModifyOrderSignature] using hmodify
          cases hsecurity : e.security.getLast? with
          | none => exact .inl ⟨rfl, fun o _ _ => by simp [hvalid, hsecurity]⟩
          | some security =>
              have hid := (TwoIndexed.find?_eq_some.mp hfound).2
              exact .inr ⟨it, security, rfl, hlive, by simp [hvalid, hid, hsig, hsecurity], rfl⟩

/-- The offers after an accepted update. -/
theorem find?_updated {offers : OffersContainer} {newOff it : OfferDetailsExWithHash} {t : Hash}
    (hfresh : offers.find? newOff.h = none) (hfound : offers.find? t = some it) (k : Hash) :
    (OffersContainer.setStopped t true (OffersContainer.setNxtOffer t (some newOff.h)
      (offers.insert newOff))).find? k =
      if k = newOff.h then some newOff
      else if k = t then some { it with stopped := true, nxtOffer := some newOff.h }
      else offers.find? k := by
  have hne : t ≠ newOff.h := by
    rintro rfl
    rw [hfresh] at hfound
    cases hfound
  rw [OffersContainer.find?_setStopped, OffersContainer.find?_setNxtOffer, TwoIndexed.find?_insert]
  by_cases hk : k = newOff.h
  · rw [if_pos ⟨hk.symm, hk ▸ hfresh⟩]
    simp [hk, hne.symm]
  · rw [if_neg fun h => hk h.1.symm]
    by_cases hkt : k = t
    · simp [hkt, hfound, hne]
    · simp [hk, hkt]

theorem undone_accepted_update {e : MarketEntry} (rest : List MarketEntry)
    {it : OfferDetailsExWithHash} (hlive : it.stopped = false)
    (hvalid : e.validUpdate env it = true) :
    undone env (e :: rest) it = { it with stopped := false, nxtOffer := none } := by
  have hfirst : firstChangeUpdates env (e :: rest) it = true := by
    rw [firstChangeUpdates, List.find?_cons_of_pos (by simp [hvalid])]
    exact hvalid
  unfold undone
  rw [if_neg (by simp [hlive]), if_pos hfirst, ← hlive]

/-- A refused update left nothing, and its pop finds no offer to erase. -/
theorem undo_refused_update {surv : OfferDetailsExWithHash → Bool} {e : MarketEntry}
    {rest : List MarketEntry} {offers c : OffersContainer} {uo : UpdateOffer}
    (hread : e.read env = some (.update uo)) (hfresh : offers.find? (e.offerId env) = none)
    (hnot : ∀ o, offers.find? (offerIdFromHashAndIndex uo.txId uo.offerIndex) = some o →
      o.stopped = false → e.validUpdate env o = false)
    (hc : ∀ k, c.find? k = leftBy env surv rest offers k) (k : Hash) :
    ((handlePopUpdate env uo e c).getD c).find? k = leftBy env surv (e :: rest) offers k := by
  have hmissing : c.find? (e.offerId env) = none := by rw [hc, leftBy_of_none hfresh]
  rw [handlePopUpdate_of_none hmissing, Option.getD_none, hc]
  by_cases hk : k = offerIdFromHashAndIndex uo.txId uo.offerIndex
  · exact (leftBy_cons_of_not fun o ho =>
      ⟨e.namesForCancel_of_update hread o, hnot o (hk ▸ ho)⟩).symm
  · exact (leftBy_update_of_ne hread hk).symm

/-- The offer that an update stopped, if it was not trimmed, is live again when the new
one is erased; if it was trimmed, so was the new one, of the same timestamp. -/
theorem undo_accepted_update {surv : OfferDetailsExWithHash → Bool} {e : MarketEntry}
    {rest : List MarketEntry} {offers c : OffersContainer} {uo : UpdateOffer}
    {it newOff : OfferDetailsExWithHash}
    (hsurv : ∀ a b : OfferDetailsExWithHash, a.timestamp = b.timestamp → surv a = surv b)
    (hread : e.read env = some (.update uo)) (hfresh : offers.find? newOff.h = none)
    (hid : newOff.h = e.offerId env) (htime : newOff.timestamp = it.timestamp)
    (hfound : offers.find? (offerIdFromHashAndIndex uo.txId uo.offerIndex) = some it)
    (hafter : undone env (e :: rest) it = { it with stopped := false, nxtOffer := none })
    (hc : ∀ k, c.find? k = leftBy env surv rest
      (OffersContainer.setStopped (offerIdFromHashAndIndex uo.txId uo.offerIndex) true
        (OffersContainer.setNxtOffer (offerIdFromHashAndIndex uo.txId uo.offerIndex)
          (some newOff.h) (offers.insert newOff))) k) (k : Hash) :
    ((handlePopUpdate env uo e c).getD c).find? k = leftBy env surv (e :: rest) offers k := by
  have hpushed := find?_updated hfresh hfound
  generalize ht : offerIdFromHashAndIndex uo.txId uo.offerIndex = t at hfound hpushed hc
  have hne : t ≠ newOff.h := by
    rintro rfl
    rw [hfresh] at hfound
    cases hfound
  have hcnew := (hc newOff.h).trans (leftBy_of_some ((hpushed newOff.h).trans (if_pos rfl)))
  have hcold := (hc t).trans
    (leftBy_of_some ((hpushed t).trans ((if_neg hne).trans (if_pos rfl))))
  rw [hsurv newOff it htime] at hcnew
  rw [hsurv { it with stopped := true, nxtOffer := some newOff.h } it rfl] at hcold
  have helsewhere : k ≠ newOff.h → k ≠ t →
      c.find? k = leftBy env surv (e :: rest) offers k := by
    intro hk hkt
    rw [hc k, leftBy_congr ((hpushed k).trans ((if_neg hk).trans (if_neg hkt)))]
    exact (leftBy_update_of_ne hread (ht ▸ hkt)).symm
  cases hs : surv it with
  | true =>
      rw [hs, if_pos rfl] at hcnew hcold
      rw [find?_handlePopUpdate (by rw [← hid, hcnew]; rfl) (by rw [ht, hcold]; rfl), ht, ← hid]
      by_cases hk : k = newOff.h
      · rw [if_pos hk, hk, leftBy_of_none hfresh]
      · rw [if_neg hk]
        by_cases hkt : k = t
        · subst hkt
          rw [leftBy_of_some hfound, hs, if_pos rfl, hafter, hcold, Option.map_some, if_pos rfl]
          refine congrArg some ?_
          unfold undone
          simp only [if_true]
          cases rest.any fun e' => e'.namesForCancel env
            { it with stopped := true, nxtOffer := some newOff.h } <;> rfl
        · rw [helsewhere hk hkt]
          simp only [if_neg hkt, Option.map_id']
  | false =>
      rw [hs] at hcnew hcold
      rw [handlePopUpdate_of_none (hid ▸ hcnew), Option.getD_none]
      by_cases hk : k = newOff.h
      · rw [hk, leftBy_of_none hfresh]
        exact hcnew
      · by_cases hkt : k = t
        · subst hkt
          rw [leftBy_of_some hfound, hs]
          exact hcold
        · exact helsewhere hk hkt

/-- The offer that an update replaced is live again and has no successor. -/
theorem undo_update {surv : OfferDetailsExWithHash → Bool} {e : MarketEntry}
    {rest : List MarketEntry} {offers c : OffersContainer} {uo : UpdateOffer}
    (hsurv : ∀ a b : OfferDetailsExWithHash, a.timestamp = b.timestamp → surv a = surv b)
    (hread : e.read env = some (.update uo)) (hfresh : offers.find? (e.offerId env) = none)
    (hc : ∀ k, c.find? k =
      leftBy env surv rest ((handlePushUpdate env uo e offers).getD offers) k) (k : Hash) :
    ((handlePopUpdate env uo e c).getD c).find? k = leftBy env surv (e :: rest) offers k := by
  obtain ⟨hpush, hnot⟩ | ⟨it, security, hfound, hlive, hvalid, hpush⟩ :=
    handlePushUpdate_cases hread offers
  · rw [hpush, Option.getD_none] at hc
    exact undo_refused_update hread hfresh hnot hc k
  · rw [hpush, Option.getD_some] at hc
    have htime : (e.newOffer env uo.of security it.timestamp).timestamp = it.timestamp := rfl
    exact undo_accepted_update hsurv hread hfresh rfl htime hfound
      (undone_accepted_update rest hlive hvalid) hc k

/-! ## All entries -/

/-- One more entry around the others. -/
theorem undo_entry {surv : OfferDetailsExWithHash → Bool} {e : MarketEntry}
    {rest : List MarketEntry} {offers c : OffersContainer} {instruction : MarketInstruction}
    (hsurv : ∀ a b : OfferDetailsExWithHash, a.timestamp = b.timestamp → surv a = surv b)
    (hread : e.read env = some instruction) (hfresh : offers.find? (e.offerId env) = none)
    (hc : ∀ k, c.find? k =
      leftBy env surv rest ((handlePush env e offers instruction).getD offers) k) (k : Hash) :
    ((handlePop env e c instruction).getD c).find? k = leftBy env surv (e :: rest) offers k := by
  cases instruction with
  | add od => exact undo_add hread hfresh hc k
  | update uo => exact undo_update hsurv hread hfresh hc k
  | cancel co => exact undo_cancel hsurv hread hc k
  | invalid =>
      refine (hc k).trans (leftBy_cons_of_not fun o _ => ?_).symm
      simp [MarketEntry.namesForCancel, MarketEntry.validUpdate, hread]

theorem leftBy_trim {times : List Nat} {entries : List MarketEntry} {offers : OffersContainer}
    (now : Nat) (k : Hash) :
    (leftBy env (survives times) entries offers k).filter (fun o => !o.expired now) =
      leftBy env (survives (now :: times)) entries offers k := by
  cases hfound : offers.find? k with
  | none => rw [leftBy_of_none hfound, leftBy_of_none hfound, Option.filter_none]
  | some o =>
      have hexpired : (undone env entries o).expired now = o.expired now := by
        rw [OfferDetailsExWithHash.expired, (undone_h entries o).2]
        rfl
      have hcons : survives (now :: times) o = (!o.expired now && survives times o) := rfl
      rw [leftBy_of_some hfound, leftBy_of_some hfound, hcons]
      by_cases hs : survives times o = true
      · rw [if_pos hs, hs, Option.filter_some, hexpired, Bool.and_true]
      · rw [if_neg hs, if_neg (by simp [hs]), Option.filter_none]

/-- The ids that a push adds are those of its entry. -/
theorem find?_handlePush {e : MarketEntry} {offers : OffersContainer}
    (instruction : MarketInstruction) {k : Hash} (hk : k ≠ e.offerId env)
    (h : offers.find? k = none) :
    ((handlePush env e offers instruction).getD offers).find? k = none := by
  have hinsert : ∀ od security timestamp,
      (offers.insert (e.newOffer env od security timestamp)).find? k = none := by
    intro od security timestamp
    refine (TwoIndexed.find?_insert _ _ _).trans ?_
    rw [if_neg fun hnew => hk hnew.1.symm, h]
  cases instruction with
  | add od =>
      simp only [handlePush, handlePushAdd]
      cases e.security.getLast? with
      | none => exact h
      | some security => exact hinsert _ _ _
  | update uo =>
      simp only [handlePush, handlePushUpdate]
      cases offers.find? (offerIdFromHashAndIndex uo.txId uo.offerIndex) with
      | none => exact h
      | some it =>
          dsimp only
          cases validateModifyOrderSignature env it (env.updateSigHash uo) uo.sig with
          | false => exact h
          | true =>
              cases e.security.getLast? with
              | none => exact h
              | some security =>
                  simp only [if_true, Option.map_some, Option.getD_some]
                  rw [OffersContainer.find?_setStopped, OffersContainer.find?_setNxtOffer, hinsert]
                  rfl
  | cancel co =>
      simp only [handlePush, handlePushCancel]
      cases offers.find? (offerIdFromHashAndIndex co.txId co.offerIndex) with
      | none => exact h
      | some it =>
          dsimp only
          cases validateModifyOrderSignature env it (env.cancelSigHash co) co.sig with
          | false => exact h
          | true =>
              simp only [if_true, Option.getD_some]
              rw [OffersContainer.find?_setStopped, h]
              rfl
  | invalid => exact h

theorem InBlockOrder.tail {e : MarketEntry} {rest : List MarketEntry} {offers : OffersContainer}
    (h : InBlockOrder env (e :: rest) offers) : InBlockOrder env rest offers :=
  ⟨(List.nodup_cons.mp h.distinct).2, fun e' he' => h.fresh e' (List.mem_cons_of_mem _ he')⟩

theorem InBlockOrder.push {e : MarketEntry} {rest : List MarketEntry} {offers : OffersContainer}
    (h : InBlockOrder env (e :: rest) offers) (instruction : MarketInstruction) :
    InBlockOrder env rest ((handlePush env e offers instruction).getD offers) where
  distinct := h.tail.distinct
  fresh e' he' := by
    refine find?_handlePush instruction (fun heq => ?_) (h.tail.fresh e' he')
    exact (List.nodup_cons.mp h.distinct).1 (heq ▸ List.mem_map_of_mem he')

/-- What all entries leave of the market: every offer for itself. -/
theorem find?_popEntries_pushEntries (entries : List MarketEntry) :
    ∀ s : BcOffersService, s.disabled = false → InBlockOrder env entries s.offers →
      let s' := BcOffersService.popEntries env entries (BcOffersService.pushEntries env entries s)
      s'.disabled = false ∧ s'.lastTrimedHeight = (trimTimes env s.lastTrimedHeight entries).2 ∧
        ∀ k, s'.offers.find? k =
          leftBy env (survives (trimTimes env s.lastTrimedHeight entries).1) entries s.offers k := by
  induction entries with
  | nil =>
      intro s henabled _
      refine ⟨henabled, rfl, fun k => ?_⟩
      cases hfound : s.offers.find? k with
      | none =>
          rw [leftBy_of_none hfound]
          exact hfound
      | some o =>
          rw [leftBy_of_some hfound]
          refine hfound.trans ?_
          simp [survives, trimTimes, undone, firstChangeUpdates]
  | cons e rest ih =>
      intro s henabled horder
      -- the entries behind this one are pushed and taken back in between
      have hpop : BcOffersService.popEntries env (e :: rest)
          (BcOffersService.pushEntries env (e :: rest) s) =
          (BcOffersService.popEntries env rest (BcOffersService.pushEntries env rest
            (s.handleEntryPush env e))).handleEntryPop env e := by
        simp [BcOffersService.popEntries, BcOffersService.pushEntries]
      rw [hpop]
      cases hread : e.read env with
      | none =>
          have hpush : s.handleEntryPush env e = s := by
            simp [BcOffersService.handleEntryPush, hread]
          rw [hpush]
          obtain ⟨henabled', htrimmed, hfind⟩ := ih s henabled horder.tail
          have hsame : ∀ s' : BcOffersService, s'.handleEntryPop env e = s' := fun s' => by
            simp [BcOffersService.handleEntryPop, hread]
          have htimes : trimTimes env s.lastTrimedHeight (e :: rest) =
              trimTimes env s.lastTrimedHeight rest := by
            simp [trimTimes, hread]
          rw [hsame, htimes]
          refine ⟨henabled', htrimmed, fun k => (hfind k).trans (leftBy_cons_of_not fun o _ => ?_).symm⟩
          simp [MarketEntry.namesForCancel, MarketEntry.validUpdate, hread]
      | some instruction =>
          have hpush : s.handleEntryPush env e =
              { s with offers := (handlePush env e s.offers instruction).getD s.offers } := by
            simp [BcOffersService.handleEntryPush, hread, henabled]
          obtain ⟨henabled', htrimmed, hfind⟩ :=
            ih (s.handleEntryPush env e) (by rw [hpush]; exact henabled)
              (by rw [hpush]; exact horder.push instruction)
          generalize BcOffersService.popEntries env rest (BcOffersService.pushEntries env rest
            (s.handleEntryPush env e)) = t at henabled' htrimmed hfind
          rw [hpush] at htrimmed hfind
          have hleft := undo_entry (c := t.offers) (fun a b hab => by
              simp only [survives, OfferDetailsExWithHash.expired, hab]) hread
            (horder.fresh e List.mem_cons_self) hfind
          simp only [BcOffersService.handleEntryPop, henabled', hread, Bool.false_eq_true, if_false]
          by_cases htrim : t.lastTrimedHeight ≠ e.h ∧ e.h % currencyBlocksPerDay = 0
          · have htimes : trimTimes env s.lastTrimedHeight (e :: rest) =
                (e.coreTime :: (trimTimes env s.lastTrimedHeight rest).1, e.h) := by
              rw [htrimmed] at htrim
              simp only [trimTimes, hread, Option.isSome_some, true_and]
              exact if_pos htrim
            rw [if_pos htrim, htimes]
            refine ⟨rfl, rfl, fun k => ?_⟩
            dsimp only
            rw [OffersContainer.find?_trimOffers, hleft, leftBy_trim]
          · have htimes : trimTimes env s.lastTrimedHeight (e :: rest) =
                trimTimes env s.lastTrimedHeight rest := by
              rw [htrimmed] at htrim
              simp only [trimTimes, hread, Option.isSome_some, true_and]
              exact if_neg htrim
            rw [if_neg htrim, htimes]
            exact ⟨rfl, htrimmed, hleft⟩

/-- Every offer that was there is kept with its flags: no trim removes it, no entry
cancels it if it is stopped, and no update is the first to change it if it is live with
a successor. -/
structure Undoable (env : OffersEnv) (entries : List MarketEntry) (s : BcOffersService) : Prop where
  kept : ∀ o ∈ s.offers, ∀ now ∈ (trimTimes env s.lastTrimedHeight entries).1,
    o.expired now = false
  stopped : ∀ o ∈ s.offers, o.stopped = true → ∀ e ∈ entries, e.namesForCancel env o = false
  linked : ∀ o ∈ s.offers, o.stopped = false → o.nxtOffer.isSome = true →
    firstChangeUpdates env entries o = false

theorem undone_eq_self_iff {entries : List MarketEntry} {o : OfferDetailsExWithHash} :
    undone env entries o = o ↔
      (o.stopped = true → ∀ e ∈ entries, e.namesForCancel env o = false) ∧
        (o.stopped = false → o.nxtOffer.isSome = true →
          firstChangeUpdates env entries o = false) := by
  unfold undone
  cases hstopped : o.stopped with
  | true =>
      rw [if_pos rfl]
      by_cases hany : (entries.any fun e => e.namesForCancel env o) = true
      · rw [if_pos hany]
        refine iff_of_false (fun h => ?_) (fun h => ?_)
        · have hflag := congrArg OfferDetailsExWithHash.stopped h
          rw [hstopped] at hflag
          cases hflag
        · obtain ⟨e, he, hname⟩ := List.any_eq_true.mp hany
          rw [h.1 rfl e he] at hname
          cases hname
      · rw [if_neg hany]
        simpa using hany
  | false =>
      rw [if_neg Bool.false_ne_true]
      by_cases hfirst : firstChangeUpdates env entries o = true
      · rw [if_pos hfirst]
        simp only [hfirst]
        cases hnxt : o.nxtOffer with
        | none =>
            refine iff_of_true ?_ (by simp)
            rw [← hnxt, ← hstopped]
        | some id =>
            refine iff_of_false (fun h => ?_) (by simp)
            have hlink := congrArg OfferDetailsExWithHash.nxtOffer h
            rw [hnxt] at hlink
            cases hlink
      · rw [if_neg hfirst]
        simp [hfirst]

/-- The pops restore the market exactly if every offer that was there is kept with its
flags, or the service is disabled. -/
theorem market_restored_iff (env : OffersEnv) (entries : List MarketEntry) (s : BcOffersService)
    (horder : InBlockOrder env entries s.offers) :
    (∀ o, o ∈ (BcOffersService.popEntries env entries
        (BcOffersService.pushEntries env entries s)).offers ↔ o ∈ s.offers) ↔
      s.disabled = true ∨ Undoable env entries s := by
  cases hdisabled : s.disabled with
  | true =>
      have hpush : BcOffersService.pushEntries env entries s = s := by
        rw [BcOffersService.pushEntries]
        induction entries with
        | nil => rfl
        | cons e rest ih =>
            have hsame : s.handleEntryPush env e = s := by
              simp [BcOffersService.handleEntryPush, hdisabled]
            rw [List.foldl_cons, hsame]
            exact ih horder.tail
      have hpop : BcOffersService.popEntries env entries s = s := by
        rw [BcOffersService.popEntries]
        induction entries.reverse with
        | nil => rfl
        | cons e rest ih =>
            have hsame : s.handleEntryPop env e = s := by
              simp [BcOffersService.handleEntryPop, hdisabled]
            rw [List.foldl_cons, hsame]
            exact ih
      rw [hpush, hpop]
      simp
  | false =>
      obtain ⟨-, -, hfind⟩ := find?_popEntries_pushEntries entries s hdisabled horder
      rw [← TwoIndexed.find?_eq_iff]
      have heach : (∀ k, leftBy env (survives (trimTimes env s.lastTrimedHeight entries).1) entries
          s.offers k = s.offers.find? k) ↔ ∀ o ∈ s.offers,
            survives (trimTimes env s.lastTrimedHeight entries).1 o = true ∧
              undone env entries o = o := by
        constructor
        · intro h o ho
          have hfound : s.offers.find? o.h = some o := TwoIndexed.find?_eq_some.mpr ⟨ho, rfl⟩
          have hleft := h o.h
          rw [leftBy_of_some hfound, hfound] at hleft
          by_cases hs : survives (trimTimes env s.lastTrimedHeight entries).1 o = true
          · rw [if_pos hs] at hleft
            exact ⟨hs, Option.some.inj hleft⟩
          · rw [if_neg hs] at hleft
            cases hleft
        · intro h k
          cases hfound : s.offers.find? k with
          | none => exact leftBy_of_none hfound
          | some o =>
              obtain ⟨hs, hsame⟩ := h o (TwoIndexed.find?_eq_some.mp hfound).1
              rw [leftBy_of_some hfound, if_pos hs, hsame]
      simp only [hfind, Bool.false_eq_true, false_or]
      rw [heach]
      constructor
      · intro h
        refine ⟨fun o ho now hnow => ?_, fun o ho => (undone_eq_self_iff.mp (h o ho).2).1,
          fun o ho => (undone_eq_self_iff.mp (h o ho).2).2⟩
        simpa using List.all_eq_true.mp (h o ho).1 now hnow
      · intro h o ho
        refine ⟨List.all_eq_true.mpr fun now hnow => ?_,
          undone_eq_self_iff.mpr ⟨h.stopped o ho, h.linked o ho⟩⟩
        simp [h.kept o ho now hnow]

/-! ### An offer that comes back -/

def sampleOfferDetails : OfferDetails := ⟨0, 0, 0, [], [], [], [], [], [], [], [], [], [], [], 0⟩

/-- An update or a cancellation names the first offer of a transaction, whose hash is its
body. -/
def sampleOffersEnv : OffersEnv where
  crypto := sampleCrypto
  unpack body := some body
  loadOfferDetails _ := some sampleOfferDetails
  loadUpdateOffer body :=
    body.head?.map fun named => ⟨BitVec.ofNat 256 named.toNat, 0, 0, sampleOfferDetails⟩
  loadCancelOffer body := body.head?.map fun named => ⟨BitVec.ofNat 256 named.toNat, 0, 0⟩
  updateSigHash _ := 0
  cancelSigHash _ := 0

def sampleMarketEntry (instruction body : ByteString) (key : PublicKey) : MarketEntry where
  instruction
  body
  security := [0]
  i := 0
  tx :=
    { version := 1
      extra := [.publicKey key]
      vin := []
      vout := []
      signatures := []
      attachment := [.other 12 []] }
  h := 1
  timestamp := 0
  coreTime := 0

def sampleAdd (key : PublicKey) : MarketEntry :=
  sampleMarketEntry bcOffersServiceInstructionAdd [] key

def sampleUpd (named : UInt8) (key : PublicKey) : MarketEntry :=
  sampleMarketEntry bcOffersServiceInstructionUpd [named] key

def sampleDel (named : UInt8) (key : PublicKey) : MarketEntry :=
  sampleMarketEntry bcOffersServiceInstructionDel [named] key

/-- The market after these entries. -/
def sampleMarket (entries : List MarketEntry) : BcOffersService :=
  BcOffersService.pushEntries sampleOffersEnv entries ⟨.empty, 0, false⟩

/-- A second cancellation is refused, but taking it back makes the offer live. -/
theorem refused_cancel_not_undone :
    let s := sampleMarket [sampleAdd 1, sampleDel 1 2]
    let entries := [sampleDel 1 3]
    InBlockOrder sampleOffersEnv entries s.offers ∧
      ¬ ∀ o, o ∈ (BcOffersService.popEntries sampleOffersEnv entries
        (BcOffersService.pushEntries sampleOffersEnv entries s)).offers ↔ o ∈ s.offers := by
  intro s entries
  refine ⟨⟨by decide, by decide⟩, fun h => ?_⟩
  have hbefore : ∀ o ∈ s.offers.entries, o.stopped = true := by decide
  have hafter : ∃ o ∈ (BcOffersService.popEntries sampleOffersEnv entries
      (BcOffersService.pushEntries sampleOffersEnv entries s)).offers.entries,
      o.stopped = false := by decide
  obtain ⟨o, ho, hlive⟩ := hafter
  have hstopped := hbefore o ((h o).mp ho)
  rw [hlive] at hstopped
  cases hstopped

/-- An offer of the block, an update of an offer that was there and of the one it leads to,
and cancellations of a third and of the last update are all taken back. -/
theorem market_restored_iff_all_kinds :
    let s := sampleMarket [sampleAdd 1, sampleAdd 2]
    let entries := [sampleAdd 3, sampleUpd 1 4, sampleUpd 4 5, sampleDel 2 6, sampleDel 5 7]
    (BcOffersService.pushEntries sampleOffersEnv entries s).offers.entries.map
        (fun o => (o.h, o.stopped)) = [(1, true), (2, true), (3, false), (4, true), (5, true)] ∧
      ∀ o, o ∈ (BcOffersService.popEntries sampleOffersEnv entries
        (BcOffersService.pushEntries sampleOffersEnv entries s)).offers ↔ o ∈ s.offers := by
  intro s entries
  refine ⟨by decide, (market_restored_iff _ _ s ⟨by decide, by decide⟩).mpr (.inr ?_)⟩
  constructor
  · have htimes : (trimTimes sampleOffersEnv s.lastTrimedHeight entries).1 = [] := by decide
    intro o _ now hnow
    rw [htimes] at hnow
    cases hnow
  · have hlive : ∀ o ∈ s.offers.entries, o.stopped = false := by decide
    intro o ho hstopped
    exact absurd (hlive o ho) (by simp [hstopped])
  · have hfree : ∀ o ∈ s.offers.entries, o.nxtOffer.isSome = false := by decide
    intro o ho _ hlink
    exact absurd (hfree o ho) (by simp [hlink])

end Chinet
