import Chinet.Lib.RunInvariant
import Chinet.Wallet.EscrowReservations
import Chinet.Wallet.EveryTransfer
import Chinet.Wallet.PoolSpends

/-!
# Reserved transfers

A transfer that is reserved for an escrow proposal is listed once, with the time at which it
comes free.  It does come free then, and not before, in every run whose proposals are sent when
their templates are marked.
-/

namespace Chinet

namespace IndexedWallet

variable {v v' v'' : IndexedWallet}

/-! ## Reservations and the list -/

/-- The transfers in the entries of `m_money_expirations`. -/
def listedTransfers (v : IndexedWallet) : List Nat :=
  v.moneyExpirations.flatMap ExpirationEntryInfo.selectedTransfers

def reservations (v : IndexedWallet) : List Bool :=
  v.transfers.map IndexedTransfer.isReservedForEscrow

theorem reservations_getElem? {i : Nat} {td : IndexedTransfer} (htd : v.transfers[i]? = some td) :
    v.reservations[i]? = some td.isReservedForEscrow := by
  rw [reservations, List.getElem?_map, htd]
  rfl

theorem transfers_of_reservations {i : Nat} {b : Bool} (h : v.reservations[i]? = some b) :
    ∃ td, v.transfers[i]? = some td ∧ td.isReservedForEscrow = b := by
  rw [reservations, List.getElem?_map] at h
  exact Option.map_eq_some_iff.mp h

/-- Every reserved transfer is listed, no index is listed twice, and all of them are in range. -/
structure Accounts (v : IndexedWallet) : Prop where
  once : v.listedTransfers.Nodup
  inRange : ∀ i ∈ v.listedTransfers, i < v.transfers.length
  listed : ∀ i, v.reservations[i]? = some true → i ∈ v.listedTransfers

/-- The list is the same, and the transfers that are new are not reserved. -/
structure Undisturbed (v v' : IndexedWallet) : Prop where
  expirations : v'.moneyExpirations = v.moneyExpirations
  reservations : ∃ k, v'.reservations = v.reservations ++ List.replicate k false

theorem Undisturbed.of_same (hexpirations : v'.moneyExpirations = v.moneyExpirations)
    (hreservations : v'.reservations = v.reservations) : v.Undisturbed v' :=
  ⟨hexpirations, 0, by rw [hreservations, List.replicate_zero, List.append_nil]⟩

theorem Undisturbed.trans (h : v.Undisturbed v') (h' : v'.Undisturbed v'') : v.Undisturbed v'' := by
  obtain ⟨k, hk⟩ := h.reservations
  obtain ⟨k', hk'⟩ := h'.reservations
  refine ⟨h'.expirations.trans h.expirations, k + k', ?_⟩
  rw [hk', hk, List.append_assoc, List.replicate_append_replicate]

theorem isReservedForEscrow_unspent (td : IndexedTransfer) :
    td.unspent.isReservedForEscrow = td.isReservedForEscrow := by
  unfold IndexedTransfer.isReservedForEscrow IndexedTransfer.unspent
  dsimp only
  rw [BitVec.and_assoc]
  rfl

theorem SpentOnly.reservations_eq (h : v.SpentOnly v') : v'.reservations = v.reservations := by
  have hunspent : IndexedTransfer.isReservedForEscrow ∘ IndexedTransfer.unspent =
      IndexedTransfer.isReservedForEscrow := funext isReservedForEscrow_unspent
  have hmaps := congrArg (List.map IndexedTransfer.isReservedForEscrow) h.unspent
  rwa [List.map_map, List.map_map, hunspent] at hmaps

theorem SpentOnly.undisturbed (h : v.SpentOnly v') : v.Undisturbed v' :=
  Undisturbed.of_same h.expirations h.reservations_eq

theorem Undisturbed.lt_length (h : v.Undisturbed v') {i : Nat} (hi : i < v.transfers.length) :
    i < v'.transfers.length := by
  obtain ⟨k, hk⟩ := h.reservations
  have hlength := congrArg List.length hk
  simp only [IndexedWallet.reservations, List.length_append, List.length_map,
    List.length_replicate] at hlength
  omega

theorem Undisturbed.reserved_iff (h : v.Undisturbed v') {i : Nat} :
    v'.reservations[i]? = some true ↔ v.reservations[i]? = some true := by
  obtain ⟨k, hk⟩ := h.reservations
  rw [hk]
  by_cases hi : i < v.reservations.length
  · rw [List.getElem?_append_left hi]
  · rw [List.getElem?_append_right (not_lt.mp hi), List.getElem?_replicate,
      List.getElem?_eq_none (not_lt.mp hi)]
    split <;> simp

theorem Accounts.undisturbed (h : v.Accounts) (hv : v.Undisturbed v') : v'.Accounts := by
  have hlisted : v'.listedTransfers = v.listedTransfers := by
    unfold listedTransfers
    rw [hv.expirations]
  constructor
  · exact hlisted ▸ h.once
  · intro i hi
    exact hv.lt_length (h.inRange i (hlisted ▸ hi))
  · intro i hi
    exact hlisted ▸ h.listed i (hv.reserved_iff.mp hi)

/-! ## Entries that change -/

/-- An entry that loses a transfer, if it is not empty then. -/
theorem listed_removeTransfer {entries : List ExpirationEntryInfo} {i : Nat}
    (h : (entries.flatMap ExpirationEntryInfo.selectedTransfers).Nodup) :
    (entries.filterMap fun e : ExpirationEntryInfo =>
      if i ∈ e.selectedTransfers then
        if e.selectedTransfers.erase i = [] then none
        else some { e with selectedTransfers := e.selectedTransfers.erase i }
      else some e).flatMap ExpirationEntryInfo.selectedTransfers =
    (entries.flatMap ExpirationEntryInfo.selectedTransfers).filter (· ≠ i) := by
  induction entries with
  | nil => rfl
  | cons e entries ih =>
      rw [List.flatMap_cons] at h
      obtain ⟨hentry, hrest, _⟩ := List.nodup_append.mp h
      have herase : e.selectedTransfers.erase i = e.selectedTransfers.filter (· ≠ i) := by
        rw [hentry.erase_eq_filter i]
        apply List.filter_congr
        intro j _
        by_cases hji : j = i
        · simp [hji]
        · simp [hji]
      rw [List.flatMap_cons, List.filter_append, ← ih hrest, ← herase]
      by_cases hmem : i ∈ e.selectedTransfers
      · by_cases hlast : e.selectedTransfers.erase i = []
        · rw [List.filterMap_cons_none (by rw [if_pos hmem, if_pos hlast]), hlast, List.nil_append]
        · rw [List.filterMap_cons_some (by rw [if_pos hmem, if_neg hlast]), List.flatMap_cons]
      · rw [List.filterMap_cons_some (by rw [if_neg hmem]), List.flatMap_cons,
          List.erase_of_not_mem hmem]

theorem modifyTransfer_getElem? (v : IndexedWallet) (i j : Nat) (change : BitVec 32 → BitVec 32)
    (spentHeight : Nat → Nat) :
    (v.modifyTransfer i change spentHeight).transfers[j]? =
      (v.transfers[j]?).map fun td =>
        if i = j then { td with flags := change td.flags, spentHeight := spentHeight td.spentHeight }
        else td :=
  List.getElem?_modify _ _ _ _

theorem reservations_modifyTransfer (i : Nat) (change : BitVec 32 → BitVec 32)
    (spentHeight : Nat → Nat) {b : Bool} (hchange : ∀ flags : BitVec 32,
      (change flags &&& walletTransferDetailFlagEscrowProposalReservation != 0) = b) :
    (v.modifyTransfer i change spentHeight).reservations = v.reservations.modify i fun _ => b := by
  apply List.ext_getElem?
  intro j
  simp only [reservations, modifyTransfer, List.getElem?_map, List.getElem?_modify]
  cases v.transfers[j]? with
  | none => rfl
  | some td =>
      by_cases hij : i = j
      · simp only [hij, if_pos, Option.map_some]
        exact congrArg some (hchange td.flags)
      · simp [hij]

theorem clearBlockedFlags_reserved (flags : BitVec 32) :
    (clearBlockedFlags flags &&& walletTransferDetailFlagEscrowProposalReservation != 0) = false := by
  unfold clearBlockedFlags
  rw [BitVec.and_assoc]
  simp [walletTransferDetailFlagEscrowProposalReservation]

theorem Accounts.removeTransfer (h : v.Accounts) (i : Nat) :
    (v.removeTransferFromExpirationList i).Accounts := by
  have hlisted : (v.removeTransferFromExpirationList i).listedTransfers =
      v.listedTransfers.filter (· ≠ i) := listed_removeTransfer h.once
  have hreservations : (v.removeTransferFromExpirationList i).reservations =
      v.reservations.modify i fun _ => false :=
    reservations_modifyTransfer i clearBlockedFlags id clearBlockedFlags_reserved
  constructor
  · rw [hlisted]
    exact h.once.filter _
  · intro j hj
    rw [hlisted] at hj
    have hlt := h.inRange j (List.mem_of_mem_filter hj)
    unfold removeTransferFromExpirationList modifyTransfer
    rw [List.length_modify]
    exact hlt
  · intro j hj
    rw [hreservations, List.getElem?_modify] at hj
    obtain ⟨b, hb, heq⟩ := Option.map_eq_some_iff.mp hj
    by_cases hij : i = j
    · rw [if_pos hij] at heq
      exact absurd heq Bool.false_ne_true
    · rw [if_neg hij] at heq
      subst heq
      rw [hlisted]
      simpa using ⟨h.listed j hb, fun hji => hij hji.symm⟩

theorem Accounts.processInput (h : v.Accounts) (height : Nat) (input : Txin) :
    (processInput height v input).1.Accounts := by
  unfold IndexedWallet.processInput
  split
  case h_1 input =>
    split
    · exact h
    · exact h
    · rename_i tid _
      apply Accounts.removeTransfer
      exact h.undisturbed (SpentOnly.modifyTransfer v tid _ SpentOnly.or_spent).undisturbed
  case h_2 input =>
    split
    · exact h
    · rename_i tid _
      exact h.undisturbed (SpentOnly.modifyTransfer v tid (fun _ => height) fun _ => rfl).undisturbed
  case h_3 => exact h

theorem expirations_foldl (l : List Nat) (change : BitVec 32 → BitVec 32)
    (spentHeight : Nat → Nat) (v : IndexedWallet) :
    (l.foldl (fun v i => v.modifyTransfer i change spentHeight) v).moneyExpirations =
      v.moneyExpirations := by
  induction l generalizing v with
  | nil => rfl
  | cons i l ih => exact ih _

theorem length_foldl (l : List Nat) (change : BitVec 32 → BitVec 32) (spentHeight : Nat → Nat)
    (v : IndexedWallet) :
    (l.foldl (fun v i => v.modifyTransfer i change spentHeight) v).transfers.length =
      v.transfers.length := by
  induction l generalizing v with
  | nil => rfl
  | cons i l ih => exact (ih _).trans (List.length_modify _ _ _)

theorem keyImages_foldl (l : List Nat) (change : BitVec 32 → BitVec 32) (spentHeight : Nat → Nat)
    (v : IndexedWallet) :
    (l.foldl (fun v i => v.modifyTransfer i change spentHeight) v).keyImages = v.keyImages := by
  induction l generalizing v with
  | nil => rfl
  | cons i l ih => exact ih _

theorem reservations_foldl (l : List Nat) {change : BitVec 32 → BitVec 32}
    (spentHeight : Nat → Nat) {b : Bool} (hchange : ∀ flags : BitVec 32,
      (change flags &&& walletTransferDetailFlagEscrowProposalReservation != 0) = b)
    (v : IndexedWallet) (j : Nat) :
    (l.foldl (fun v i => v.modifyTransfer i change spentHeight) v).reservations[j]? =
      if j ∈ l then (v.reservations[j]?).map fun _ => b else v.reservations[j]? := by
  induction l generalizing v with
  | nil => simp
  | cons i l ih =>
      rw [List.foldl_cons, ih, reservations_modifyTransfer i change spentHeight hchange,
        List.getElem?_modify]
      cases v.reservations[j]? with
      | none => simp
      | some b' =>
          by_cases hij : i = j
          · by_cases hjl : j ∈ l <;> simp [hij, hjl]
          · have hji : j ≠ i := fun h => hij h.symm
            by_cases hjl : j ∈ l <;> simp [hij, hji, hjl]

theorem or_mask_reserved (flags : BitVec 32) :
    ((flags ||| walletTransferDetailFlagBlocked |||
      walletTransferDetailFlagEscrowProposalReservation) &&&
        walletTransferDetailFlagEscrowProposalReservation != 0) = true := by
  have hbit : (flags ||| walletTransferDetailFlagBlocked |||
      walletTransferDetailFlagEscrowProposalReservation) &&&
        walletTransferDetailFlagEscrowProposalReservation =
      walletTransferDetailFlagEscrowProposalReservation := by
    ext i hi
    simp only [BitVec.getElem_and, BitVec.getElem_or]
    grind
  rw [hbit]
  rfl

section AddTransfers

variable (v) (found : List Nat) (expiration : UInt64)

/-- The transfers that an entry of a new proposal gets. -/
def notListed : List Nat :=
  found.filter fun i => v.moneyExpirations.all fun e => i ∉ e.selectedTransfers

theorem mem_notListed {i : Nat} : i ∈ notListed v found ↔ i ∈ found ∧ i ∉ v.listedTransfers := by
  simp [notListed, listedTransfers]

theorem listedTransfers_addTransfers :
    (v.addTransfersToExpirationList found expiration).listedTransfers =
      v.listedTransfers ++ notListed v found := by
  unfold addTransfersToExpirationList
  change IndexedWallet.listedTransfers (if notListed v found = [] then v else _) = _
  split
  case isTrue hnil => rw [hnil, List.append_nil]
  case isFalse =>
    unfold listedTransfers
    rw [expirations_foldl, List.flatMap_append]
    simp [notListed]

theorem length_addTransfers :
    (v.addTransfersToExpirationList found expiration).transfers.length = v.transfers.length := by
  unfold addTransfersToExpirationList
  dsimp only
  split
  · rfl
  · exact length_foldl _ _ _ _

theorem keyImages_addTransfers :
    (v.addTransfersToExpirationList found expiration).keyImages = v.keyImages := by
  unfold addTransfersToExpirationList
  dsimp only
  split
  · rfl
  · exact keyImages_foldl _ _ _ _

theorem reservations_addTransfers (j : Nat) :
    (v.addTransfersToExpirationList found expiration).reservations[j]? =
      if j ∈ notListed v found then (v.reservations[j]?).map fun _ => true
      else v.reservations[j]? := by
  unfold addTransfersToExpirationList
  change (IndexedWallet.reservations (if notListed v found = [] then v else _))[j]? = _
  split
  case isTrue hnil => simp [hnil]
  case isFalse => exact reservations_foldl (notListed v found) id or_mask_reserved _ j

end AddTransfers

/-- A proposal that this wallet meets lists what is not listed yet, reserved or not; what it finds is
there, and is found once. -/
theorem accounts_addTransfers {found : List Nat} (expiration : UInt64)
    (honce : v.listedTransfers.Nodup) (hinRange : ∀ i ∈ v.listedTransfers, i < v.transfers.length)
    (hlisted : ∀ i, v.reservations[i]? = some true → i ∈ v.listedTransfers ∨ i ∈ found)
    (hnodup : found.Nodup) (hlt : ∀ i ∈ found, i < v.transfers.length) :
    (v.addTransfersToExpirationList found expiration).Accounts := by
  constructor
  · rw [listedTransfers_addTransfers, List.nodup_append]
    refine ⟨honce, hnodup.filter _, ?_⟩
    intro i hi j hj heq
    exact ((mem_notListed v found).mp hj).2 (heq ▸ hi)
  · intro i hi
    rw [length_addTransfers]
    rw [listedTransfers_addTransfers] at hi
    rcases List.mem_append.mp hi with hi | hi
    · exact hinRange i hi
    · exact hlt i ((mem_notListed v found).mp hi).1
  · intro i hi
    rw [reservations_addTransfers] at hi
    rw [listedTransfers_addTransfers, List.mem_append, mem_notListed]
    by_cases hmem : i ∈ v.listedTransfers
    · exact Or.inl hmem
    · split at hi
      case isTrue hnew => exact Or.inr ((mem_notListed v found).mp hnew)
      case isFalse => exact Or.inr ⟨(hlisted i hi).resolve_left hmem, hmem⟩

theorem Accounts.addTransfers (h : v.Accounts) {found : List Nat} (expiration : UInt64)
    (hnodup : found.Nodup) (hlt : ∀ i ∈ found, i < v.transfers.length) :
    (v.addTransfersToExpirationList found expiration).Accounts :=
  accounts_addTransfers expiration h.once h.inRange (fun i hi => Or.inl (h.listed i hi)) hnodup hlt

/-! ## Expiration -/

/-- The test of `handle_expiration_list`. -/
def isExpired (txExpirationTsMedian : UInt64) (e : ExpirationEntryInfo) : Bool :=
  txExpirationTsMedian > e.expirationTime - txExpirationMedianShift.toUInt64

/-- The median has passed the expiration time less the shift. -/
def Passed (txExpirationTsMedian : UInt64) (e : ExpirationEntryInfo) : Prop :=
  e.expirationTime.toNat < txExpirationTsMedian.toNat + txExpirationMedianShift

theorem isExpired_iff {txExpirationTsMedian : UInt64} {e : ExpirationEntryInfo}
    (he : txExpirationMedianShift ≤ e.expirationTime.toNat) :
    isExpired txExpirationTsMedian e = true ↔ Passed txExpirationTsMedian e := by
  have hshift : txExpirationMedianShift.toUInt64.toNat = txExpirationMedianShift := rfl
  have hsub : (e.expirationTime - txExpirationMedianShift.toUInt64).toNat =
      e.expirationTime.toNat - txExpirationMedianShift := by
    rw [UInt64.toNat_sub_of_le, hshift]
    rw [UInt64.le_iff_toNat_le, hshift]
    exact he
  rw [isExpired, decide_eq_true_eq, gt_iff_lt, UInt64.lt_iff_toNat_lt, hsub, Passed]
  omega

section HandleExpirationList

variable (v) (txExpirationTsMedian : UInt64)

/-- A transfer after `handle_expiration_list`. -/
def afterExpiration (i : Nat) (td : IndexedTransfer) : IndexedTransfer :=
  if td.spentHeight = 0 ∧
    (v.moneyExpirations.any fun e => isExpired txExpirationTsMedian e && i ∈ e.selectedTransfers)
  then { td with flags := clearBlockedFlags td.flags } else td

theorem handleExpirationList_getElem? (i : Nat) :
    (v.handleExpirationList txExpirationTsMedian).transfers[i]? =
      (v.transfers[i]?).map (v.afterExpiration txExpirationTsMedian i) :=
  List.getElem?_mapIdx

theorem handleExpirationList_expirations :
    (v.handleExpirationList txExpirationTsMedian).moneyExpirations =
      v.moneyExpirations.filter fun e => !isExpired txExpirationTsMedian e := rfl

end HandleExpirationList

/-- No transfer of an entry that expires is spent in a block. -/
def ExpiresUnspent (v : IndexedWallet) (txExpirationTsMedian : UInt64) : Prop :=
  ∀ e ∈ v.moneyExpirations, isExpired txExpirationTsMedian e = true → ∀ i ∈ e.selectedTransfers,
    ∀ td, v.transfers[i]? = some td → td.spentHeight = 0

/-- An entry of a list without repetitions holds no index of another entry. -/
theorem entry_unique {entries : List ExpirationEntryInfo} {e e' : ExpirationEntryInfo} {i : Nat}
    (h : (entries.flatMap ExpirationEntryInfo.selectedTransfers).Nodup) (he : e ∈ entries)
    (he' : e' ∈ entries) (hi : i ∈ e.selectedTransfers) (hi' : i ∈ e'.selectedTransfers) : e = e' := by
  induction entries with
  | nil => exact absurd he List.not_mem_nil
  | cons first entries ih =>
      rw [List.flatMap_cons] at h
      obtain ⟨_, hrest, hapart⟩ := List.nodup_append.mp h
      have hother : ∀ e ∈ entries, i ∈ e.selectedTransfers → i ∉ first.selectedTransfers :=
        fun e he hi hfirst => hapart i hfirst i (List.mem_flatMap.mpr ⟨e, he, hi⟩) rfl
      rcases List.mem_cons.mp he with rfl | hlater
      · rcases List.mem_cons.mp he' with rfl | hlater'
        · rfl
        · exact absurd hi (hother e' hlater' hi')
      · rcases List.mem_cons.mp he' with rfl | hlater'
        · exact absurd hi' (hother e hlater hi)
        · exact ih hrest hlater hlater'

theorem Accounts.handleExpirationList (h : v.Accounts) {txExpirationTsMedian : UInt64}
    (hunspent : v.ExpiresUnspent txExpirationTsMedian) :
    (v.handleExpirationList txExpirationTsMedian).Accounts := by
  have hsub : (v.handleExpirationList txExpirationTsMedian).listedTransfers.Sublist
      v.listedTransfers := by
    unfold listedTransfers
    rw [handleExpirationList_expirations]
    exact List.filter_sublist.flatMap _
  constructor
  · exact h.once.sublist hsub
  · intro i hi
    unfold IndexedWallet.handleExpirationList
    rw [List.length_mapIdx]
    exact h.inRange i (hsub.subset hi)
  · intro i hi
    obtain ⟨td', htd', hreserved'⟩ := transfers_of_reservations hi
    rw [handleExpirationList_getElem?] at htd'
    obtain ⟨td, htd, rfl⟩ := Option.map_eq_some_iff.mp htd'
    -- a transfer that is still reserved was not in an entry that expires
    have hkept : ¬ (td.spentHeight = 0 ∧ (v.moneyExpirations.any fun e =>
        isExpired txExpirationTsMedian e && i ∈ e.selectedTransfers) = true) := by
      intro hexpired
      rw [afterExpiration, if_pos hexpired] at hreserved'
      exact absurd (hreserved'.symm.trans (clearBlockedFlags_reserved td.flags)) nofun
    rw [afterExpiration, if_neg hkept] at hreserved'
    have hmem := h.listed i (hreserved' ▸ reservations_getElem? htd)
    obtain ⟨e, he, hie⟩ := List.mem_flatMap.mp hmem
    refine List.mem_flatMap.mpr ⟨e, ?_, hie⟩
    rw [handleExpirationList_expirations]
    refine List.mem_filter.mpr ⟨he, ?_⟩
    cases hexpired : isExpired txExpirationTsMedian e with
    | false => rfl
    | true =>
        refine absurd ⟨hunspent e he hexpired i hie td htd, ?_⟩ hkept
        exact List.any_eq_true.mpr ⟨e, he, by simp [hexpired, hie]⟩

/-! ## Detaching -/

theorem Accounts.detachBlockchain (h : v.Accounts) (hash : Transaction → Hash) {includingHeight : Nat}
    (hcut : ∀ i ∈ v.listedTransfers, i < v.cutIndex includingHeight) :
    (detachBlockchain hash v includingHeight).Accounts := by
  obtain ⟨n, hn, hspent⟩ := exists_detachBlockchain hash v includingHeight
  have htake : ({ v with transfers := v.transfers.take n } : IndexedWallet).Accounts := by
    constructor
    · exact h.once
    · intro i hi
      have hlt := h.inRange i hi
      rw [List.length_take]
      exact lt_min ((hcut i hi).trans_le hn) hlt
    · intro i hi
      rw [reservations, List.map_take, List.getElem?_take] at hi
      split at hi
      · exact h.listed i hi
      · exact absurd hi nofun
  exact htake.undisturbed hspent.undisturbed

/-! ## Selections -/

/-- What is selected is not reserved. -/
theorem selected_not_reserved {neededMoney : UInt64} {fakeOutputsCount dust i : Nat}
    (hi : i ∈ (v.selectTransfers neededMoney fakeOutputsCount dust).1.selectedIndexes) :
    v.reservations[i]? = some false := by
  obtain ⟨hready, -⟩ :=
    (v.cacheView.selectTransfers_selected neededMoney fakeOutputsCount dust).2 i hi
  have hable := TransfersWallet.able_of_ready hready
  unfold cacheView at hable
  dsimp only at hable
  rw [List.getElem?_map] at hable
  cases hget : v.transfers[i]? with
  | none => simp [hget] at hable
  | some td =>
      rw [hget] at hable
      have hspendable : td.toTransferDetails.isSpendable = true := (Bool.and_eq_true_iff.mp hable).1
      have hmask := eq_of_beq hspendable
      have hreserved : td.flags &&& walletTransferDetailFlagEscrowProposalReservation = 0 := by
        calc td.flags &&& walletTransferDetailFlagEscrowProposalReservation
            = td.flags &&& (walletTransferDetailFlagSpent ||| walletTransferDetailFlagBlocked |||
                walletTransferDetailFlagEscrowProposalReservation |||
                walletTransferDetailFlagColdSigReservation) &&&
                  walletTransferDetailFlagEscrowProposalReservation := by
              rw [BitVec.and_assoc]
              rfl
          _ = 0 := by
              rw [hmask]
              exact BitVec.zero_and
      rw [reservations_getElem? hget, IndexedTransfer.isReservedForEscrow, hreserved]
      rfl

section Template

variable (v) (selected : List Nat) (j : Nat)

theorem reservations_markTemplate :
    (v.markTransfersWithFlag selected escrowTemplateMask).reservations[j]? =
      if j ∈ selected then (v.reservations[j]?).map fun _ => true else v.reservations[j]? := by
  apply reservations_foldl
  intro flags
  rw [escrowTemplateMask, ← BitVec.or_assoc]
  exact or_mask_reserved flags

theorem reservations_clearTemplate :
    (v.clearTransfersFromFlag selected escrowTemplateMask).reservations[j]? =
      if j ∈ selected then (v.reservations[j]?).map fun _ => false else v.reservations[j]? := by
  apply reservations_foldl
  intro flags
  rw [BitVec.and_assoc]
  simp [escrowTemplateMask, walletTransferDetailFlagBlocked,
    walletTransferDetailFlagEscrowProposalReservation]

end Template

/-- The two selections of `send_escrow_proposal` reserve the transfers of the template. -/
theorem reservations_selectForProposal (v : IndexedWallet)
    (templateMoney proposalMoney : UInt64) (fakeOutputsCount dust j : Nat) :
    (PoolWallet.selectForProposal v templateMoney proposalMoney fakeOutputsCount
      dust).2.2.reservations[j]? =
        if j ∈ (PoolWallet.selectForProposal v templateMoney proposalMoney fakeOutputsCount dust).1
        then (v.reservations[j]?).map fun _ => true else v.reservations[j]? :=
  reservations_markTemplate (v.selectTransfers templateMoney fakeOutputsCount dust).2 _ j

section SelectForProposal

variable (v) (templateMoney proposalMoney : UInt64) (fakeOutputsCount dust : Nat)

theorem expirations_selectForProposal :
    (PoolWallet.selectForProposal v templateMoney proposalMoney fakeOutputsCount
      dust).2.2.moneyExpirations = v.moneyExpirations :=
  expirations_foldl (PoolWallet.selectForProposal v templateMoney proposalMoney fakeOutputsCount
    dust).1 _ id (v.selectTransfers templateMoney fakeOutputsCount dust).2

theorem length_selectForProposal :
    (PoolWallet.selectForProposal v templateMoney proposalMoney fakeOutputsCount
      dust).2.2.transfers.length = v.transfers.length :=
  length_foldl (PoolWallet.selectForProposal v templateMoney proposalMoney fakeOutputsCount
    dust).1 _ id (v.selectTransfers templateMoney fakeOutputsCount dust).2

theorem keyImages_selectForProposal :
    (PoolWallet.selectForProposal v templateMoney proposalMoney fakeOutputsCount
      dust).2.2.keyImages = v.keyImages :=
  keyImages_foldl (PoolWallet.selectForProposal v templateMoney proposalMoney fakeOutputsCount
    dust).1 _ id (v.selectTransfers templateMoney fakeOutputsCount dust).2

end SelectForProposal

theorem onException_rest (v : IndexedWallet) (exceptionHandler : Bool) :
    (PoolWallet.onException v exceptionHandler).reservations = v.reservations ∧
      (PoolWallet.onException v exceptionHandler).transfers = v.transfers ∧
      (PoolWallet.onException v exceptionHandler).moneyExpirations = v.moneyExpirations := by
  unfold PoolWallet.onException
  split <;> exact ⟨rfl, rfl, rfl⟩

/-- `send_escrow_proposal` that does not build its transaction frees what it has marked. -/
theorem Undisturbed.failedEscrowProposal (v : IndexedWallet)
    (templateMoney proposalMoney : UInt64) (fakeOutputsCount dust : Nat) (exceptionHandler : Bool) :
    v.Undisturbed (v.failedEscrowProposal templateMoney proposalMoney fakeOutputsCount dust
      exceptionHandler) := by
  have hreservations :=
    reservations_selectForProposal v templateMoney proposalMoney fakeOutputsCount dust
  have hexpirations :=
    expirations_selectForProposal v templateMoney proposalMoney fakeOutputsCount dust
  have hfree : ∀ i ∈ (PoolWallet.selectForProposal v templateMoney proposalMoney fakeOutputsCount
      dust).1, v.reservations[i]? = some false :=
    fun i hi => @selected_not_reserved v templateMoney fakeOutputsCount dust i hi
  have hfailed : v.failedEscrowProposal templateMoney proposalMoney fakeOutputsCount dust
      exceptionHandler = releaseHold escrowTemplateMask
        (PoolWallet.onException (PoolWallet.selectForProposal v templateMoney proposalMoney
          fakeOutputsCount dust).2.2 exceptionHandler)
        (PoolWallet.selectForProposal v templateMoney proposalMoney fakeOutputsCount dust).1 := rfl
  rw [hfailed]
  generalize PoolWallet.selectForProposal v templateMoney proposalMoney fakeOutputsCount dust =
    marked at hreservations hexpirations hfree ⊢
  obtain ⟨selected, _, u⟩ := marked
  obtain ⟨hsame, _, hrest⟩ := onException_rest u exceptionHandler
  apply Undisturbed.of_same
  · exact (expirations_foldl selected _ id _).trans (hrest.trans hexpirations)
  · apply List.ext_getElem?
    intro j
    refine (reservations_clearTemplate _ selected j).trans ?_
    rw [hsame, hreservations]
    dsimp only
    by_cases hj : j ∈ selected
    · rw [if_pos hj, if_pos hj, hfree j hj]
      rfl
    · rw [if_neg hj, if_neg hj]

/-! ## Transfers that stay reserved -/

/-- A reserved transfer stays so, unless a block spends it. -/
def Keeps (v v' : IndexedWallet) : Prop :=
  ∀ (i : Nat) td, v.transfers[i]? = some td → (td.isReservedForEscrow = true ∨ td.spentHeight ≠ 0) →
    ∃ td', v'.transfers[i]? = some td' ∧ (td'.isReservedForEscrow = true ∨ td'.spentHeight ≠ 0)

namespace Keeps

theorem of_prefix {more : List IndexedTransfer} (h : v'.transfers = v.transfers ++ more) :
    v.Keeps v' := by
  intro i td htd hkept
  refine ⟨td, ?_, hkept⟩
  rw [h, List.getElem?_append_left (List.getElem?_eq_some_iff.mp htd).1]
  exact htd

theorem of_transfers (h : v'.transfers = v.transfers) : v.Keeps v' :=
  of_prefix (h.trans (List.append_nil _).symm)

theorem trans (h : v.Keeps v') (h' : v'.Keeps v'') : v.Keeps v'' := by
  intro i td htd hkept
  obtain ⟨td', htd', hkept'⟩ := h i td htd hkept
  exact h' i td' htd' hkept'

theorem modifyTransfer (v : IndexedWallet) (i : Nat) {change : BitVec 32 → BitVec 32}
    {spentHeight : Nat → Nat} (hchange : ∀ td : IndexedTransfer,
      (td.isReservedForEscrow = true ∨ td.spentHeight ≠ 0) →
        (change td.flags &&& walletTransferDetailFlagEscrowProposalReservation != 0) = true ∨
          spentHeight td.spentHeight ≠ 0) : v.Keeps (v.modifyTransfer i change spentHeight) := by
  intro j td htd hkept
  rw [modifyTransfer_getElem?, htd, Option.map_some]
  refine ⟨_, rfl, ?_⟩
  by_cases hij : i = j
  · rw [if_pos hij]
    exact hchange td hkept
  · rw [if_neg hij]
    exact hkept

theorem foldl {α : Type} {f : IndexedWallet → α → IndexedWallet}
    (hf : ∀ (v : IndexedWallet) a, v.Keeps (f v a)) (l : List α) (v : IndexedWallet) :
    v.Keeps (l.foldl f v) := by
  induction l generalizing v with
  | nil => exact of_transfers rfl
  | cons a l ih => exact (hf v a).trans (ih _)

theorem addTransfers (v : IndexedWallet) (found : List Nat) (expiration : UInt64) :
    v.Keeps (v.addTransfersToExpirationList found expiration) := by
  unfold addTransfersToExpirationList
  dsimp only
  split
  · exact of_transfers rfl
  · have hentry : v.Keeps { v with moneyExpirations := v.moneyExpirations ++
        [⟨expiration, notListed v found⟩] } := of_transfers rfl
    exact hentry.trans (foldl (fun v i => modifyTransfer v i fun td _ =>
      Or.inl (or_mask_reserved td.flags)) _ _)

theorem processInput (v : IndexedWallet) {height : Nat} (hheight : height ≠ 0) (input : Txin) :
    v.Keeps (processInput height v input).1 := by
  unfold IndexedWallet.processInput
  split
  case h_1 input =>
    split
    · exact of_transfers rfl
    · exact of_transfers rfl
    · rename_i tid _
      intro i td htd hkept
      unfold removeTransferFromExpirationList
      rw [modifyTransfer_getElem?]
      change ∃ td', ((v.modifyTransfer tid (· ||| walletTransferDetailFlagSpent)
        fun _ => height).transfers[i]?).map _ = some td' ∧ _
      rw [modifyTransfer_getElem?, htd, Option.map_some, Option.map_some]
      refine ⟨_, rfl, ?_⟩
      by_cases htid : tid = i
      · -- the reservation goes when the height is set
        rw [if_pos htid, if_pos htid]
        exact Or.inr hheight
      · rw [if_neg htid, if_neg htid]
        exact hkept
  case h_2 input =>
    split
    · exact of_transfers rfl
    · exact modifyTransfer v _ fun _ _ => Or.inr hheight
  case h_3 => exact of_transfers rfl

end Keeps

/-! ## Transactions -/

theorem flags_not_reserved (out : OwnOutput) (tx : Transaction) (height : Nat) :
    (out.transfer tx height).isReservedForEscrow = false := by
  unfold IndexedTransfer.isReservedForEscrow OwnOutput.transfer OwnOutput.flags
  dsimp only
  generalize (tx.vout[out.o]?).map TxOut.target = target
  rcases target with _ | _ | _ | _ <;> dsimp only <;> cases out.isMined <;>
    cases out.isWalletOwnsRedeem <;> rfl

/-- The inputs of a transaction take their transfers out of the list, and its outputs are new. -/
theorem Accounts.processNewTransaction (h : v.Accounts) (tx : Transaction) (txHash : Hash)
    {height : Nat} (hheight : height ≠ 0) (own : List OwnOutput) :
    (v.processNewTransaction tx txHash height own).1.Accounts ∧
      v.Keeps (v.processNewTransaction tx txHash height own).1 := by
  have hbase : ({ v with
      unconfirmedTxs := Function.update v.unconfirmedTxs txHash none } : IndexedWallet).Accounts :=
    h.undisturbed (Undisturbed.of_same rfl rfl)
  have hspent : (v.processInputs tx txHash height).1.Accounts ∧
      v.Keeps (v.processInputs tx txHash height).1 :=
    goThrough_induct (P := fun u : IndexedWallet => u.Accounts ∧ v.Keeps u)
      (fun u input hu => ⟨hu.1.processInput height input,
        hu.2.trans (Keeps.processInput u hheight input)⟩) ⟨hbase, Keeps.of_transfers rfl⟩
  unfold IndexedWallet.processNewTransaction
  split
  · rename_i u heq
    rw [heq] at hspent
    obtain ⟨haccounts, hkeeps⟩ := hspent
    obtain ⟨more, hmore, htransfers, hexpirations⟩ := exists_processOutputs tx txHash height own u
    refine ⟨haccounts.undisturbed ⟨hexpirations, more.length, ?_⟩,
      hkeeps.trans (Keeps.of_prefix htransfers)⟩
    rw [reservations, htransfers, List.map_append]
    congr 1
    apply List.eq_replicate_iff.mpr
    refine ⟨List.length_map _, ?_⟩
    intro b hb
    obtain ⟨td, htd, rfl⟩ := List.mem_map.mp hb
    obtain ⟨out, _, rfl⟩ := hmore td htd
    exact flags_not_reserved out tx height
  · rename_i heq
    rwa [heq] at hspent

end IndexedWallet

namespace PoolWallet

variable {prims : ProposalPrimitives} {w : PoolWallet}

/-! ## What is promised -/

/-- A transfer is an input of the template of a proposal that is in no block yet. -/
def OfUnconfirmedProposal (prims : ProposalPrimitives) (w : PoolWallet) (i : Nat) : Prop :=
  ∃ e ∈ w.unconfirmedEntries, ∃ template, prims.ownProposal e.2.tx = some template ∧
    i ∈ w.toIndexedWallet.scanTxToKeyInputs template

/-- Every reserved transfer is in exactly one entry, once, or of an unconfirmed proposal. -/
def Accounted (prims : ProposalPrimitives) (w : PoolWallet) : Prop :=
  ∀ (i : Nat) td, w.transfers[i]? = some td → td.isReservedForEscrow = true →
    w.toIndexedWallet.listedTransfers.count i = 1 ∨ OfUnconfirmedProposal prims w i

def IsFree (td : IndexedTransfer) : Prop := td.flags &&& IndexedWallet.escrowTemplateMask = 0

/-- The transfers of an entry whose time has passed are free, unless they are spent. -/
def Freed (prims : ProposalPrimitives) (w : PoolWallet) : EscrowEvent → Prop
  | .handleExpirationList txExpirationTsMedian =>
      ∀ e ∈ w.moneyExpirations, IndexedWallet.Passed txExpirationTsMedian e →
        ∀ i ∈ e.selectedTransfers, ∀ td,
          (escrowStep prims w (.handleExpirationList txExpirationTsMedian)).transfers[i]? = some td →
            td.spentHeight = 0 → IsFree td
  | _ => True

/-- The time of an entry passes at an event. -/
def PassesAt (e : ExpirationEntryInfo) : EscrowEvent → Prop
  | .handleExpirationList txExpirationTsMedian => IndexedWallet.Passed txExpirationTsMedian e
  | _ => False

/-- A reserved transfer of an entry whose time does not pass stays reserved, unless it is spent. -/
def Kept (prims : ProposalPrimitives) (w : PoolWallet) (event : EscrowEvent) : Prop :=
  ∀ e ∈ w.moneyExpirations, ¬ PassesAt e event → ∀ i ∈ e.selectedTransfers, ∀ td td',
    w.transfers[i]? = some td → (escrowStep prims w event).transfers[i]? = some td' →
      td.isReservedForEscrow = true → td'.spentHeight = 0 → td'.isReservedForEscrow = true

/-- The reservations of a run neither leak nor end too early. -/
def ReservationsHold (prims : ProposalPrimitives) (w : PoolWallet) (events : List EscrowEvent) : Prop :=
  (∀ done rest : List EscrowEvent, events = done ++ rest → Accounted prims (escrowRun prims w done)) ∧
    ∀ (done : List EscrowEvent) event rest, events = done ++ event :: rest →
      Freed prims (escrowRun prims w done) event ∧ Kept prims (escrowRun prims w done) event

/-! ## What a step relies on -/

/-- A proposal of this wallet that a transaction brings has inputs with transfers of their own. -/
def FoundOnce (prims : ProposalPrimitives) (w : PoolWallet) (tx : Transaction) : Prop :=
  ∀ template, prims.ownProposal tx = some template →
    (w.toIndexedWallet.scanTxToKeyInputs template).Nodup ∧
      ∀ i ∈ w.toIndexedWallet.scanTxToKeyInputs template, i < w.transfers.length

def Orderly (prims : ProposalPrimitives) (w : PoolWallet) : EscrowEvent → Prop
  | .wallet event =>
      (∀ tx ∈ recordedBy prims.toPoolPrimitives w event,
        FoundOnce prims (step prims.toPoolPrimitives w event) tx) ∧
      match event with
      | .processNewTransaction height _ _ => height ≠ 0
      | .detachBlockchain includingHeight =>
          ∀ i ∈ w.toIndexedWallet.listedTransfers, i < w.toIndexedWallet.cutIndex includingHeight
      | .resetAll => w.moneyExpirations = []
      | .changeFlags change => ∀ i flags, change i flags &&& IndexedWallet.escrowTemplateMask =
          flags &&& IndexedWallet.escrowTemplateMask
      | _ => True
  | .sendEscrowProposal templateMoney proposalMoney fakeOutputsCount dust proposal outcome =>
      match outcome with
      | .notSent _ => (selectForProposal w.toIndexedWallet templateMoney proposalMoney
          fakeOutputsCount dust).1 = []
      | .sent =>
          -- the network has the proposal, and the wallet finds the transfers of the template in it
          FoundOnce prims w proposal ∧ ∃ template, prims.ownProposal proposal = some template ∧
              ∀ i ∈ (selectForProposal w.toIndexedWallet templateMoney proposalMoney
                fakeOutputsCount dust).1, i ∈ w.toIndexedWallet.scanTxToKeyInputs template
      | _ => True
  | .handleExpirationList txExpirationTsMedian =>
      (∀ e ∈ w.moneyExpirations, txExpirationMedianShift ≤ e.expirationTime.toNat) ∧
        w.toIndexedWallet.ExpiresUnspent txExpirationTsMedian

/-! ## Steps -/

/-- What is reserved stays so. -/
def Reserves (w w' : PoolWallet) : Prop :=
  ∀ i : Nat, w.toIndexedWallet.reservations[i]? = some true →
    w'.toIndexedWallet.reservations[i]? = some true

theorem Reserves.trans {w w' w'' : PoolWallet} (h : w.Reserves w') (h' : w'.Reserves w'') :
    w.Reserves w'' := fun i hi => h' i (h i hi)

theorem Reserves.of_undisturbed {w w' : PoolWallet}
    (h : w.toIndexedWallet.Undisturbed w'.toIndexedWallet) : w.Reserves w' :=
  fun _ hi => h.reserved_iff.mpr hi

section HandleProposal

variable (prims) (w) (tx : Transaction)

theorem Reserves.handleProposal : w.Reserves (handleProposal prims w tx) := by
  unfold PoolWallet.handleProposal
  split
  · exact fun _ h => h
  · intro i hi
    dsimp only
    rw [IndexedWallet.reservations_addTransfers, hi]
    split <;> rfl

theorem keeps_handleProposal :
    w.toIndexedWallet.Keeps (handleProposal prims w tx).toIndexedWallet := by
  unfold PoolWallet.handleProposal
  split
  · exact IndexedWallet.Keeps.of_transfers rfl
  · exact IndexedWallet.Keeps.addTransfers _ _ _

theorem accounts_handleProposal {prims} {w} {tx} (h : w.toIndexedWallet.Accounts)
    (hfound : FoundOnce prims w tx) : (handleProposal prims w tx).toIndexedWallet.Accounts := by
  unfold PoolWallet.handleProposal
  split
  · exact h
  case h_2 template htemplate =>
    obtain ⟨hnodup, hlt⟩ := hfound template htemplate
    exact h.addTransfers _ hnodup hlt

/-- A proposal that is met changes nothing that another is found by. -/
theorem foundOnce_handleProposal {prims} {w} {tx tx' : Transaction} (h : FoundOnce prims w tx') :
    FoundOnce prims (handleProposal prims w tx) tx' := by
  unfold PoolWallet.handleProposal
  split
  · exact h
  case h_2 other _ =>
    intro template htemplate
    obtain ⟨hnodup, hlt⟩ := h template htemplate
    have hfound : (w.toIndexedWallet.addTransfersToExpirationList (w.toIndexedWallet.scanTxToKeyInputs
        other) (getTxExpirationTime other.toTransactionPrefix).toUInt64).scanTxToKeyInputs template =
          w.toIndexedWallet.scanTxToKeyInputs template := by
      unfold IndexedWallet.scanTxToKeyInputs
      rw [IndexedWallet.keyImages_addTransfers]
    dsimp only
    rw [hfound]
    refine ⟨hnodup, fun i hi => ?_⟩
    exact (hlt i hi).trans_eq (IndexedWallet.length_addTransfers _ _ _).symm

theorem length_handleProposal :
    (handleProposal prims w tx).transfers.length = w.transfers.length := by
  unfold PoolWallet.handleProposal
  split
  · rfl
  · exact IndexedWallet.length_addTransfers _ _ _

end HandleProposal

/-- The proposals of the transactions that a step records. -/
theorem accounts_handleProposals (txs : List Transaction) (w : PoolWallet)
    (h : w.toIndexedWallet.Accounts) (hfound : ∀ tx ∈ txs, FoundOnce prims w tx) :
    (txs.foldl (handleProposal prims) w).toIndexedWallet.Accounts ∧
      w.Reserves (txs.foldl (handleProposal prims) w) ∧
      w.toIndexedWallet.Keeps (txs.foldl (handleProposal prims) w).toIndexedWallet ∧
      (txs.foldl (handleProposal prims) w).transfers.length = w.transfers.length := by
  induction txs generalizing w with
  | nil => exact ⟨h, fun _ h => h, IndexedWallet.Keeps.of_transfers rfl, rfl⟩
  | cons tx txs ih =>
      obtain ⟨hhead, htail⟩ := List.forall_mem_cons.mp hfound
      obtain ⟨haccounts, hreserves, hkeeps, hlength⟩ := ih (handleProposal prims w tx)
        (accounts_handleProposal h hhead) fun tx' htx' => foundOnce_handleProposal (htail tx' htx')
      exact ⟨haccounts, (Reserves.handleProposal prims w tx).trans hreserves,
        (keeps_handleProposal prims w tx).trans hkeeps,
        hlength.trans (length_handleProposal prims w tx)⟩

theorem spentOnly_scanTxPool (prims : PoolPrimitives) (w : PoolWallet) (txs : List Transaction)
    (txExpirationTsMedian : Nat) :
    w.toIndexedWallet.SpentOnly (scanTxPool prims w txs txExpirationTsMedian).1.toIndexedWallet := by
  obtain ⟨ids, hscan, _⟩ := scanned_scanTxs prims txExpirationTsMedian w.unconfirmedInTransfers txs
    ({ w with unconfirmedInTransfers := [] }, [])
  have hspent := hscan.spentOnly
  unfold scanTxPool
  split
  case h_1 hscanned =>
    rw [hscanned] at hspent
    exact hspent
  case h_2 hscanned =>
    rw [hscanned] at hspent
    exact hspent.trans (IndexedWallet.SpentOnly.of_rest rfl rfl)

theorem spentOnly_scanUnconfirmedOutdateTx (w : PoolWallet) (txExpirationTsMedian : Nat) :
    w.toIndexedWallet.SpentOnly
      (w.scanUnconfirmedOutdateTx txExpirationTsMedian).toIndexedWallet := by
  refine ⟨IndexedWallet.map_mapIdx_eq fun i td => ?_, rfl⟩
  have hclear : ∀ td, (clearSpent td).unspent = td.unspent := by
    intro td
    simp only [clearSpent, IndexedTransfer.unspent, IndexedWallet.SpentOnly.and_not_spent]
  change (w.afterIdle txExpirationTsMedian i td).unspent = td.unspent
  unfold afterIdle afterRemoval
  dsimp only
  split_ifs <;> simp only [hclear]

/-- Events that process no block and take none back, and change no flags of a reservation. -/
def Quiet : Event → Prop
  | .processNewTransaction .. | .detachBlockchain _ | .resetAll => False
  | .changeFlags change => ∀ i flags, change i flags &&& IndexedWallet.escrowTemplateMask =
      flags &&& IndexedWallet.escrowTemplateMask
  | _ => True

variable (prims) (w) in
theorem undisturbed_step {event : Event} (h : Quiet event) :
    w.toIndexedWallet.Undisturbed (step prims.toPoolPrimitives w event).toIndexedWallet := by
  cases event with
  | processNewTransaction | detachBlockchain | resetAll => exact h.elim
  | blockAdded height => exact (IndexedWallet.SpentOnly.processHtlcTriggers _ _ height).undisturbed
  | advance | submitTransfer | acceptProposal => exact IndexedWallet.Undisturbed.of_same rfl rfl
  | changeFlags change =>
      refine IndexedWallet.Undisturbed.of_same rfl (IndexedWallet.map_mapIdx_eq fun i td => ?_)
      -- the reservation is one of the two flags of the mask
      have hmask : ∀ flags : BitVec 32,
          flags &&& walletTransferDetailFlagEscrowProposalReservation =
            flags &&& IndexedWallet.escrowTemplateMask &&&
              walletTransferDetailFlagEscrowProposalReservation := by
        intro flags
        rw [BitVec.and_assoc]
        rfl
      unfold IndexedTransfer.isReservedForEscrow
      rw [hmask, hmask td.flags, h]
  | send tx selectedTransfers =>
      exact (IndexedWallet.SpentOnly.markTransfersWithFlag _ selectedTransfers).undisturbed.trans
        (IndexedWallet.Undisturbed.of_same rfl rfl)
  | associateKeyImage transferIndex keyImage =>
      change w.toIndexedWallet.Undisturbed (w.toIndexedWallet.associateKeyImage transferIndex keyImage)
      unfold IndexedWallet.associateKeyImage
      split
      · exact IndexedWallet.Undisturbed.of_same rfl (IndexedWallet.map_modify_eq fun _ => rfl)
      · exact IndexedWallet.Undisturbed.of_same rfl rfl
  | scanTxPool txs txExpirationTsMedian =>
      exact (spentOnly_scanTxPool _ w txs txExpirationTsMedian).undisturbed
  | scanUnconfirmedOutdateTx txExpirationTsMedian =>
      exact (spentOnly_scanUnconfirmedOutdateTx w txExpirationTsMedian).undisturbed

/-! ### What a step promises -/

theorem Kept.of_reserves {event : EscrowEvent} (h : w.Reserves (escrowStep prims w event)) :
    Kept prims w event := by
  intro e _ _ i _ td td' htd htd' hreserved _
  have hi := IndexedWallet.reservations_getElem? htd
  rw [hreserved] at hi
  have hi' := IndexedWallet.reservations_getElem? htd'
  exact Option.some.inj (hi'.symm.trans (h i hi))

theorem Kept.of_keeps {event : EscrowEvent}
    (h : w.toIndexedWallet.Keeps (escrowStep prims w event).toIndexedWallet) :
    Kept prims w event := by
  intro e _ _ i _ td td' htd htd' hreserved hunspent
  obtain ⟨td'', htd'', hkept⟩ := h i td htd (Or.inl hreserved)
  cases htd''.symm.trans htd'
  exact hkept.resolve_right (not_not.mpr hunspent)

/-- A step of an orderly run keeps the reservations in the list. -/
def StepHolds (prims : ProposalPrimitives) (w : PoolWallet) (event : EscrowEvent) : Prop :=
  (escrowStep prims w event).toIndexedWallet.Accounts ∧ Freed prims w event ∧ Kept prims w event

/-- Entries that go back to the unconfirmed transactions change no transfer. -/
theorem unconfirms_rest (prims : PoolPrimitives) (entries : List UnconfirmedTx) (w : PoolWallet) :
    (entries.foldl (unconfirm prims) w).transfers = w.transfers ∧
      (entries.foldl (unconfirm prims) w).moneyExpirations = w.moneyExpirations := by
  have hone : ∀ (w : PoolWallet) wti, (unconfirm prims w wti).transfers = w.transfers ∧
      (unconfirm prims w wti).moneyExpirations = w.moneyExpirations := by
    intro w wti
    unfold unconfirm
    dsimp only
    split <;> exact ⟨rfl, rfl⟩
  induction entries generalizing w with
  | nil => exact ⟨rfl, rfl⟩
  | cons wti entries ih =>
      obtain ⟨htransfers, hexpirations⟩ := ih (unconfirm prims w wti)
      exact ⟨htransfers.trans (hone w wti).1, hexpirations.trans (hone w wti).2⟩

theorem detachBlockchain_rest (prims : PoolPrimitives) (w : PoolWallet) (includingHeight : Nat) :
    (detachBlockchain prims w includingHeight).transfers =
        (w.toIndexedWallet.detachBlockchain prims.getTransactionHash includingHeight).transfers ∧
      (detachBlockchain prims w includingHeight).moneyExpirations =
        (w.toIndexedWallet.detachBlockchain prims.getTransactionHash includingHeight).moneyExpirations := by
  unfold detachBlockchain
  dsimp only
  split
  · exact ⟨rfl, rfl⟩
  · exact unconfirms_rest prims _ _

theorem stepHolds_detachBlockchain (h : w.toIndexedWallet.Accounts) {includingHeight : Nat}
    (hcut : ∀ i ∈ w.toIndexedWallet.listedTransfers, i < w.toIndexedWallet.cutIndex includingHeight) :
    StepHolds prims w (.wallet (.detachBlockchain includingHeight)) := by
  obtain ⟨htransfers, hexpirations⟩ := detachBlockchain_rest prims.toPoolPrimitives w includingHeight
  have hreservations : (detachBlockchain prims.toPoolPrimitives w
      includingHeight).toIndexedWallet.reservations = (w.toIndexedWallet.detachBlockchain
        prims.getTransactionHash includingHeight).reservations :=
    congrArg (List.map IndexedTransfer.isReservedForEscrow) htransfers
  refine ⟨?_, trivial, ?_⟩
  · exact (h.detachBlockchain prims.getTransactionHash hcut).undisturbed
      (IndexedWallet.Undisturbed.of_same hexpirations hreservations)
  · intro e _ _ i _ td td' htd htd' hreserved _
    obtain ⟨n, _, hspent⟩ := IndexedWallet.exists_detachBlockchain prims.getTransactionHash
      w.toIndexedWallet includingHeight
    have hi := IndexedWallet.reservations_getElem? htd
    have hi' := IndexedWallet.reservations_getElem? htd'
    -- what the detach leaves is as reserved as before
    have hcutOff : (escrowStep prims w (.wallet (.detachBlockchain
        includingHeight))).toIndexedWallet.reservations = w.toIndexedWallet.reservations.take n := by
      refine hreservations.trans (hspent.reservations_eq.trans ?_)
      rw [IndexedWallet.reservations, List.map_take]
      rfl
    rw [hcutOff, List.getElem?_take] at hi'
    split at hi'
    · exact (Option.some.inj (hi'.symm.trans hi)).trans hreserved
    · exact absurd hi' nofun

theorem stepHolds_wallet (h : w.toIndexedWallet.Accounts) {event : Event}
    (horderly : Orderly prims w (.wallet event)) : StepHolds prims w (.wallet event) := by
  obtain ⟨hfound, hevent⟩ := horderly
  have hquiet : Quiet event → StepHolds prims w (.wallet event) := by
    intro hquiet
    have hstep := undisturbed_step prims w hquiet
    obtain ⟨haccounts, hreserves, _⟩ := accounts_handleProposals _ _ (h.undisturbed hstep) hfound
    exact ⟨haccounts, trivial, Kept.of_reserves ((Reserves.of_undisturbed hstep).trans hreserves)⟩
  cases event with
  | processNewTransaction height timestamp t =>
      have hstep := h.processNewTransaction t.tx (prims.getTransactionHash t.tx) hevent t.outs
      obtain ⟨haccounts, _, hkeeps, _⟩ := accounts_handleProposals _ _ hstep.1 hfound
      exact ⟨haccounts, trivial, Kept.of_keeps (hstep.2.trans hkeeps)⟩
  | detachBlockchain includingHeight => exact stepHolds_detachBlockchain h hevent
  | resetAll =>
      have hlisted : w.resetAll.toIndexedWallet.listedTransfers = [] :=
        congrArg (List.flatMap ExpirationEntryInfo.selectedTransfers) hevent
      refine ⟨⟨?_, ?_, fun i hi => absurd hi nofun⟩, trivial, fun e _ _ i _ td td' _ htd' => ?_⟩
      · exact hlisted ▸ List.nodup_nil
      · exact fun i hi => absurd (hlisted ▸ hi) List.not_mem_nil
      · exact absurd htd' nofun
  | changeFlags change => exact hquiet hevent
  | _ => exact hquiet trivial

/-- The proposal marks what it spends itself, and its template is met as soon as it is recorded. -/
theorem sent_holds (h : w.toIndexedWallet.Accounts) {v : IndexedWallet} {selected : List Nat}
    (hexpirations : v.moneyExpirations = w.moneyExpirations)
    (hreservations : ∀ j : Nat, v.reservations[j]? =
      if j ∈ selected then (w.toIndexedWallet.reservations[j]?).map fun _ => true
      else w.toIndexedWallet.reservations[j]?)
    (hlength : v.transfers.length = w.transfers.length) (hkeyImages : v.keyImages = w.keyImages)
    {proposal template : Transaction} (htemplate : prims.ownProposal proposal = some template)
    (hfound : FoundOnce prims w proposal)
    (hselected : ∀ i ∈ selected, i ∈ w.toIndexedWallet.scanTxToKeyInputs template)
    (selectedTransfers : List Nat) :
    (sendRecorded prims { w with toIndexedWallet := v } proposal
        selectedTransfers).toIndexedWallet.Accounts ∧
      w.Reserves (sendRecorded prims { w with toIndexedWallet := v } proposal selectedTransfers) := by
  have hspent : v.SpentOnly (send prims.toPoolPrimitives { w with toIndexedWallet := v } proposal
      selectedTransfers).toIndexedWallet :=
    (IndexedWallet.SpentOnly.markTransfersWithFlag v selectedTransfers).trans
      (IndexedWallet.SpentOnly.of_rest rfl rfl)
  have hkey : (send prims.toPoolPrimitives { w with toIndexedWallet := v } proposal
      selectedTransfers).keyImages = w.keyImages :=
    (IndexedWallet.keyImages_foldl selectedTransfers (· ||| walletTransferDetailFlagSpent) id v).trans
      hkeyImages
  have hsize : (send prims.toPoolPrimitives { w with toIndexedWallet := v } proposal
      selectedTransfers).transfers.length = w.transfers.length :=
    (IndexedWallet.length_foldl selectedTransfers (· ||| walletTransferDetailFlagSpent) id v).trans
      hlength
  unfold sendRecorded
  generalize send prims.toPoolPrimitives { w with toIndexedWallet := v } proposal selectedTransfers = u
    at hspent hkey hsize ⊢
  have hscan : u.toIndexedWallet.scanTxToKeyInputs template =
      w.toIndexedWallet.scanTxToKeyInputs template := by
    unfold IndexedWallet.scanTxToKeyInputs
    rw [hkey]
  have hlisted : u.toIndexedWallet.listedTransfers = w.toIndexedWallet.listedTransfers := by
    unfold IndexedWallet.listedTransfers
    rw [hspent.expirations, hexpirations]
  obtain ⟨hnodup, hlt⟩ := hfound template htemplate
  constructor
  · unfold handleProposal
    rw [htemplate]
    dsimp only
    rw [hscan]
    apply IndexedWallet.accounts_addTransfers
    · exact hlisted ▸ h.once
    · intro i hi
      exact (h.inRange i (hlisted ▸ hi)).trans_eq hsize.symm
    · intro i hi
      rw [hspent.reservations_eq, hreservations] at hi
      split at hi
      case isTrue hmem => exact Or.inr (hselected i hmem)
      case isFalse => exact Or.inl (hlisted ▸ h.listed i hi)
    · exact hnodup
    · exact fun i hi => (hlt i hi).trans_eq hsize.symm
  · have hbefore : w.Reserves u := by
      intro i hi
      rw [hspent.reservations_eq, hreservations, hi]
      split <;> rfl
    exact hbefore.trans (Reserves.handleProposal prims u proposal)

theorem stepHolds_sendEscrowProposal (h : w.toIndexedWallet.Accounts)
    {templateMoney proposalMoney : UInt64} {fakeOutputsCount dust : Nat} {proposal : Transaction}
    {outcome : ProposalOutcome}
    (horderly : Orderly prims w (.sendEscrowProposal templateMoney proposalMoney fakeOutputsCount dust
      proposal outcome)) :
    StepHolds prims w (.sendEscrowProposal templateMoney proposalMoney fakeOutputsCount dust
      proposal outcome) := by
  have hundisturbed : ∀ {w' : PoolWallet}, escrowStep prims w (.sendEscrowProposal templateMoney
      proposalMoney fakeOutputsCount dust proposal outcome) = w' →
        w.toIndexedWallet.Undisturbed w'.toIndexedWallet →
          StepHolds prims w (.sendEscrowProposal templateMoney proposalMoney fakeOutputsCount dust
            proposal outcome) := by
    rintro _ rfl hstep
    exact ⟨h.undisturbed hstep, trivial, Kept.of_reserves (Reserves.of_undisturbed hstep)⟩
  have hreservations := IndexedWallet.reservations_selectForProposal w.toIndexedWallet templateMoney
    proposalMoney fakeOutputsCount dust
  have hexpirations := IndexedWallet.expirations_selectForProposal w.toIndexedWallet templateMoney
    proposalMoney fakeOutputsCount dust
  cases outcome with
  | templateNotBuilt exceptionHandler =>
      obtain ⟨hsame, _, hrest⟩ := IndexedWallet.onException_rest
        (w.toIndexedWallet.selectTransfers templateMoney fakeOutputsCount dust).2 exceptionHandler
      exact hundisturbed rfl (IndexedWallet.Undisturbed.of_same hrest hsame)
  | notBuilt exceptionHandler =>
      exact hundisturbed rfl (IndexedWallet.Undisturbed.failedEscrowProposal _ templateMoney
        proposalMoney fakeOutputsCount dust exceptionHandler)
  | notSent exceptionHandler =>
      obtain ⟨hsame, _, hrest⟩ := IndexedWallet.onException_rest (selectForProposal w.toIndexedWallet
        templateMoney proposalMoney fakeOutputsCount dust).2.2 exceptionHandler
      apply hundisturbed rfl
      apply IndexedWallet.Undisturbed.of_same (hrest.trans hexpirations)
      refine hsame.trans (List.ext_getElem? fun j => ?_)
      have hnone : (selectForProposal w.toIndexedWallet templateMoney proposalMoney fakeOutputsCount
        dust).1 = [] := horderly
      rw [hreservations, hnone, if_neg List.not_mem_nil]
  | sent =>
      obtain ⟨hfound, template, htemplate, hselected⟩ := horderly
      have hsent := sent_holds h hexpirations hreservations
        (IndexedWallet.length_selectForProposal w.toIndexedWallet _ _ _ _)
        (IndexedWallet.keyImages_selectForProposal w.toIndexedWallet _ _ _ _)
        htemplate hfound hselected (selectForProposal w.toIndexedWallet templateMoney proposalMoney
          fakeOutputsCount dust).2.1
      exact ⟨hsent.1, trivial, Kept.of_reserves hsent.2⟩

theorem clearBlockedFlags_mask (flags : BitVec 32) :
    IndexedWallet.clearBlockedFlags flags &&& IndexedWallet.escrowTemplateMask = 0 := by
  unfold IndexedWallet.clearBlockedFlags IndexedWallet.escrowTemplateMask
  rw [BitVec.and_assoc, BitVec.and_assoc]
  simp [walletTransferDetailFlagBlocked, walletTransferDetailFlagEscrowProposalReservation]

theorem stepHolds_handleExpirationList (h : w.toIndexedWallet.Accounts)
    {txExpirationTsMedian : UInt64}
    (horderly : Orderly prims w (.handleExpirationList txExpirationTsMedian)) :
    StepHolds prims w (.handleExpirationList txExpirationTsMedian) := by
  obtain ⟨hshift, hunspent⟩ := horderly
  refine ⟨h.handleExpirationList hunspent, ?_, ?_⟩
  · intro e he hpassed i hi td' htd' hheight
    have hexpired := (IndexedWallet.isExpired_iff (hshift e he)).mpr hpassed
    have hget := IndexedWallet.handleExpirationList_getElem? w.toIndexedWallet txExpirationTsMedian i
    obtain ⟨td, htd, rfl⟩ := Option.map_eq_some_iff.mp (hget.symm.trans htd')
    have hany : (w.moneyExpirations.any fun e =>
        IndexedWallet.isExpired txExpirationTsMedian e && i ∈ e.selectedTransfers) = true :=
      List.any_eq_true.mpr ⟨e, he, by simp [hexpired, hi]⟩
    unfold IndexedWallet.afterExpiration IsFree
    rw [if_pos ⟨hunspent e he hexpired i hi td htd, hany⟩]
    exact clearBlockedFlags_mask td.flags
  · intro e he hpassed i hi td td' htd htd' hreserved _
    have hget := IndexedWallet.handleExpirationList_getElem? w.toIndexedWallet txExpirationTsMedian i
    rw [htd, Option.map_some] at hget
    cases hget.symm.trans htd'
    -- an entry that expires would hold the same index
    have hkept : ¬ (td.spentHeight = 0 ∧ (w.moneyExpirations.any fun e =>
        IndexedWallet.isExpired txExpirationTsMedian e && i ∈ e.selectedTransfers) = true) := by
      intro hexpired
      obtain ⟨e', he', hboth⟩ := List.any_eq_true.mp hexpired.2
      obtain ⟨hexpired', hi'⟩ := Bool.and_eq_true_iff.mp hboth
      have heq := IndexedWallet.entry_unique h.once he he' hi (of_decide_eq_true hi')
      exact hpassed ((IndexedWallet.isExpired_iff (hshift e he)).mp (heq ▸ hexpired'))
    unfold IndexedWallet.afterExpiration
    rw [if_neg hkept]
    exact hreserved

/-! ## Runs -/

variable (prims) in
theorem StepHolds.of_orderly (h : w.toIndexedWallet.Accounts) {event : EscrowEvent}
    (horderly : Orderly prims w event) : StepHolds prims w event := by
  cases event with
  | wallet event => exact stepHolds_wallet h horderly
  | sendEscrowProposal => exact stepHolds_sendEscrowProposal h horderly
  | handleExpirationList => exact stepHolds_handleExpirationList h horderly

theorem empty_accounts (watchOnly auditable : Bool) :
    (empty watchOnly auditable).toIndexedWallet.Accounts where
  once := List.nodup_nil
  inRange := nofun
  listed := fun _ hi => absurd hi nofun

theorem accounted_of_accounts (h : w.toIndexedWallet.Accounts) : Accounted prims w := by
  intro i td htd hreserved
  have hmem := h.listed i (hreserved ▸ IndexedWallet.reservations_getElem? htd)
  exact Or.inl (List.count_eq_one_of_mem h.once hmem)

/-- In every orderly run the reservations neither leak nor end too early. -/
theorem escrow_reservations_hold (prims : ProposalPrimitives) (watchOnly auditable : Bool)
    (events : List EscrowEvent)
    (hrun : ∀ (done : List EscrowEvent) event rest, events = done ++ event :: rest →
      Orderly prims (escrowRun prims (empty watchOnly auditable) done) event) :
    ReservationsHold prims (empty watchOnly auditable) events := by
  have haccounts : ∀ done rest : List EscrowEvent, events = done ++ rest →
      (escrowRun prims (empty watchOnly auditable) done).toIndexedWallet.Accounts :=
    RunInvariant.forall_states (P := fun w : PoolWallet => w.toIndexedWallet.Accounts)
      (empty_accounts watchOnly auditable)
      (fun _ _ h horderly => (StepHolds.of_orderly prims h horderly).1) hrun
  constructor
  · exact fun done rest hevents => accounted_of_accounts (haccounts done rest hevents)
  · intro done event rest hevents
    exact (StepHolds.of_orderly prims (haccounts done (event :: rest) hevents)
      (hrun done event rest hevents)).2

/-- A template with an input of its own, that expires. -/
def sampleTemplate (expiration : Nat) : Transaction where
  version := 3
  extra := [.expirationTime expiration]
  vin := [.toKey {
    amount := 10
    keyOffsets := [.globalIndex 7]
    kImage := 5
    etcDetails := [] }]
  vout := []
  signatures := []
  attachment := []

def sampleProposal : Transaction := sampleTransaction 4 [.toKey {
  amount := 10
  keyOffsets := [.globalIndex 8]
  kImage := 6
  etcDetails := [] }]

/-- The fourth transaction brings the template. -/
def proposalPrims (expiration : Nat) : ProposalPrimitives where
  toPoolPrimitives := samplePrims
  ownProposal tx := if tx.version = 4 then some (sampleTemplate expiration) else none

/-- Two transfers have come in blocks and can be spent. -/
def twoTransfers : List EscrowEvent :=
  [.wallet (.advance 30 1000000000),
    .wallet (.processNewTransaction 5 0
      ⟨sampleTransaction 1 [], [⟨0, 5, 7, false, false⟩], [], 10⟩),
    .wallet (.processNewTransaction 6 0
      ⟨sampleTransaction 2 [], [⟨0, 6, 8, false, false⟩], [], 10⟩)]

/-- The blocks bring no proposal. -/
theorem foundOnce_block {expiration height timestamp : Nat} {w w' : PoolWallet}
    {t : ReceivedTransaction} (ht : t.tx.version ≠ 4) :
    ∀ tx ∈ recordedBy (proposalPrims expiration).toPoolPrimitives w
      (.processNewTransaction height timestamp t), FoundOnce (proposalPrims expiration) w' tx := by
  intro tx htx template htemplate
  change tx ∈ (if _ then [t.tx] else []) at htx
  split at htx
  · rw [List.mem_singleton.mp htx] at htemplate
    simp [proposalPrims, ht] at htemplate
  · exact absurd htx List.not_mem_nil

/-- No entry of a wallet without spent transfers is in the way of an expiration. -/
theorem orderly_handleExpirationList {w : PoolWallet} {txExpirationTsMedian : UInt64}
    (hentries : (w.moneyExpirations.all fun e => txExpirationMedianShift ≤ e.expirationTime.toNat) = true)
    (htransfers : (w.transfers.all fun td => td.spentHeight = 0) = true) :
    Orderly prims w (.handleExpirationList txExpirationTsMedian) := by
  constructor
  · intro e he
    exact of_decide_eq_true (List.all_eq_true.mp hentries e he)
  · intro e _ _ i _ td htd
    exact of_decide_eq_true (List.all_eq_true.mp htransfers td (List.mem_of_getElem? htd))

theorem escrow_reservations_hold_sample :
    ReservationsHold (proposalPrims 2000000000) (empty false false)
      (twoTransfers ++ [.sendEscrowProposal 10 10 0 0 sampleProposal .sent,
        .handleExpirationList 1000000000, .handleExpirationList 2000000000]) := by
  have hfound : (escrowRun (proposalPrims 2000000000) (empty false false)
      twoTransfers).toIndexedWallet.scanTxToKeyInputs (sampleTemplate 2000000000) = [0] := by
    decide +kernel
  have hlength : (escrowRun (proposalPrims 2000000000) (empty false false)
      twoTransfers).transfers.length = 2 := by decide +kernel
  have hselected : (selectForProposal (escrowRun (proposalPrims 2000000000) (empty false false)
      twoTransfers).toIndexedWallet 10 10 0 0).1 = [0] := by decide +kernel
  apply escrow_reservations_hold
  simp only [escrowRun, twoTransfers, List.cons_append, List.nil_append]
  refine RunInvariant.forall_steps_cons ⟨nofun, trivial⟩ ?_
  refine RunInvariant.forall_steps_cons ⟨foundOnce_block (by decide), by decide⟩ ?_
  refine RunInvariant.forall_steps_cons ⟨foundOnce_block (by decide), by decide⟩ ?_
  refine RunInvariant.forall_steps_cons ⟨?_, sampleTemplate 2000000000, rfl, ?_⟩ ?_
  · intro template htemplate
    cases htemplate
    refine ⟨hfound.symm ▸ List.nodup_singleton 0, fun i hi => ?_⟩
    have hi0 := List.mem_singleton.mp (hfound ▸ hi)
    exact (hi0 ▸ Nat.zero_lt_two).trans_eq hlength.symm
  · intro i hi
    exact hfound.symm ▸ hselected ▸ hi
  refine RunInvariant.forall_steps_cons
    (orderly_handleExpirationList (by decide +kernel) (by decide +kernel)) ?_
  exact RunInvariant.forall_steps_cons
    (orderly_handleExpirationList (by decide +kernel) (by decide +kernel))
    RunInvariant.forall_steps_nil

/-- A proposal that the network does not take leaves the transfers of its template reserved, and a
template with a small expiration time keeps its transfers for ever. -/
theorem escrow_reservations_do_not_hold :
    ¬ ReservationsHold (proposalPrims 2000000000) (empty false false)
        (twoTransfers ++ [.sendEscrowProposal 10 10 0 0 sampleProposal (.notSent true)]) ∧
      ¬ ReservationsHold (proposalPrims 5) (empty false false)
        (twoTransfers ++ [.sendEscrowProposal 10 10 0 0 sampleProposal .sent,
          .handleExpirationList 1000000000]) := by
  constructor
  · intro hclaim
    have haccounted := hclaim.1 _ [] (List.append_nil _).symm 0
    generalize hw : escrowRun (proposalPrims 2000000000) (empty false false) (twoTransfers ++
      [.sendEscrowProposal 10 10 0 0 sampleProposal (.notSent true)]) = w at haccounted
    have hreserved : w.toIndexedWallet.reservations[0]? = some true := by
      rw [← hw]
      decide +kernel
    have hlisted : w.toIndexedWallet.listedTransfers = [] := by
      rw [← hw]
      decide +kernel
    have hunconfirmed : w.unconfirmedEntries = [] := by
      rw [← hw]
      decide +kernel
    obtain ⟨td, htd, hreserved⟩ := IndexedWallet.transfers_of_reservations hreserved
    rcases haccounted td htd hreserved with hcount | ⟨e, he, _⟩
    · simp [hlisted] at hcount
    · simp [hunconfirmed] at he
  · intro hclaim
    have hfreed := (hclaim.2 (twoTransfers ++ [.sendEscrowProposal 10 10 0 0 sampleProposal .sent])
      (.handleExpirationList 1000000000) [] rfl).1
    have hentries : ((escrowRun (proposalPrims 5) (empty false false) (twoTransfers ++
        [.sendEscrowProposal 10 10 0 0 sampleProposal .sent])).moneyExpirations.map fun e =>
          (e.expirationTime, e.selectedTransfers)) = [(5, [0])] := by decide +kernel
    have hflags : ((escrowStep (proposalPrims 5) (escrowRun (proposalPrims 5) (empty false false)
        (twoTransfers ++ [.sendEscrowProposal 10 10 0 0 sampleProposal .sent]))
          (.handleExpirationList 1000000000)).transfers[0]?).map (fun td =>
            (td.flags, td.spentHeight)) = some (6, 0) := by decide +kernel
    obtain ⟨e, he, heq⟩ := List.mem_map.mp (hentries.symm ▸ List.mem_singleton_self _)
    obtain ⟨td, htd, hfields⟩ := Option.map_eq_some_iff.mp hflags
    obtain ⟨htime, hselected⟩ := Prod.mk.inj heq
    obtain ⟨hsix, hheight⟩ := Prod.mk.inj hfields
    have hpassed : IndexedWallet.Passed 1000000000 e := by
      unfold IndexedWallet.Passed
      rw [htime]
      decide
    have hfree := hfreed e he hpassed 0 (hselected ▸ List.mem_singleton_self 0) td htd hheight
    rw [IsFree, hsix] at hfree
    exact absurd hfree (by decide)

end PoolWallet

end Chinet
