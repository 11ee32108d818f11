import Chinet.Wallet.TransferIndexes
import Mathlib.Data.List.Nodup
import Mathlib.Data.List.Infix

/-!
# Dangling indexes of transfers

No container holds an index past the end of `m_transfers`, and an index keeps referring to
the output that it was recorded for, in every run that never cuts transfers which a container
that is left alone still holds.
-/

namespace Chinet

/-! ## What stays of a transfer -/

/-- The part of a transfer that no step changes in place, apart from a key image that becomes
known. -/
def IndexedTransfer.fixed (td : IndexedTransfer) : IndexedTransfer :=
  { td with flags := 0, globalOutputIndex := 0, spentHeight := 0 }

namespace IndexedWallet

variable {w : IndexedWallet} {outs : List IndexedTransfer}

/-- The indexes are in range and refer to what they were recorded for; `outs` are the
transfers up to what changes in place. -/
structure Sound (w : IndexedWallet) (outs : List IndexedTransfer) : Prop where
  fixed : w.transfers.map IndexedTransfer.fixed = outs
  keyImages : ∀ k i, w.keyImages k = some i →
    k ≠ nullKi ∧ (outs[i]?).map IndexedTransfer.keyImage = some k
  amountGindex : ∀ k i, w.amountGindexToTransferId k = some i → i < outs.length
  htlcs : ∀ e ∈ w.htlcs,
    (outs[e.2.transferIndex]?).bind IndexedTransfer.htlcExpiration? = some e.1
  htlcsNodup : (w.htlcs.map fun e => e.2.transferIndex).Nodup
  activeHtlcs : ∀ k i, w.activeHtlcs k = some i → i < outs.length
  activeHtlcsTxid : ∀ k i, w.activeHtlcsTxid k = some i → i < outs.length
  foundFreeAmounts : ∀ p ∈ pairs w.foundFreeAmounts, p.2 < outs.length
  moneyExpirations : ∀ e ∈ w.moneyExpirations, ∀ i ∈ e.selectedTransfers, i < outs.length
  unconfirmedTxs : ∀ k l, w.unconfirmedTxs k = some l → ∀ i ∈ l, i < outs.length

theorem Sound.length_eq (h : w.Sound outs) : w.transfers.length = outs.length := by
  rw [← h.fixed, List.length_map]

theorem lt_of_map_eq_some {α β : Type} {l : List α} {i : Nat} {f : α → β} {b : β}
    (h : (l[i]?).map f = some b) : i < l.length := by
  obtain ⟨a, ha, _⟩ := Option.map_eq_some_iff.mp h
  exact (List.getElem?_eq_some_iff.mp ha).1

theorem lt_of_bind_eq_some {α β : Type} {l : List α} {i : Nat} {f : α → Option β} {b : β}
    (h : (l[i]?).bind f = some b) : i < l.length := by
  obtain ⟨a, ha, _⟩ := Option.bind_eq_some_iff.mp h
  exact (List.getElem?_eq_some_iff.mp ha).1

theorem Sound.keyImages_lt (h : w.Sound outs) {k : KeyImage} {i : Nat}
    (hk : w.keyImages k = some i) : i < outs.length :=
  lt_of_map_eq_some (h.keyImages k i hk).2

theorem Sound.htlcs_lt (h : w.Sound outs) {e : Nat × HtlcExpirationTrigger} (he : e ∈ w.htlcs) :
    e.2.transferIndex < outs.length :=
  lt_of_bind_eq_some (h.htlcs e he)

theorem Sound.lt_of_holds (h : w.Sound outs) {c : IndexContainer} {i : Nat}
    (hc : w.Holds c i) : i < outs.length := by
  cases c with
  | keyImages =>
      obtain ⟨k, hk⟩ := hc
      exact h.keyImages_lt hk
  | amountGindexToTransferId =>
      obtain ⟨k, hk⟩ := hc
      exact h.amountGindex k i hk
  | htlcs =>
      obtain ⟨e, he, rfl⟩ := hc
      exact h.htlcs_lt he
  | activeHtlcs =>
      obtain ⟨k, hk⟩ := hc
      exact h.activeHtlcs k i hk
  | activeHtlcsTxid =>
      obtain ⟨k, hk⟩ := hc
      exact h.activeHtlcsTxid k i hk
  | foundFreeAmounts =>
      obtain ⟨p, hp, rfl⟩ := hc
      exact h.foundFreeAmounts p hp
  | moneyExpirations =>
      obtain ⟨e, he, hi⟩ := hc
      exact h.moneyExpirations e he i hi
  | unconfirmedTxs =>
      obtain ⟨k, l, hl, hi⟩ := hc
      exact h.unconfirmedTxs k l hl i hi

/-! ## Steps that leave the transfers in place -/

/-- Only what may change in place has changed. -/
theorem Sound.withTransfers (h : w.Sound outs) {transfers : List IndexedTransfer}
    (hfixed : transfers.map IndexedTransfer.fixed = w.transfers.map IndexedTransfer.fixed) :
    ({ w with transfers } : IndexedWallet).Sound outs :=
  { h with fixed := hfixed.trans h.fixed }

theorem map_fixed_modify {l : List IndexedTransfer} {i : Nat} {f : IndexedTransfer → IndexedTransfer}
    (hf : ∀ td, (f td).fixed = td.fixed) :
    (l.modify i f).map IndexedTransfer.fixed = l.map IndexedTransfer.fixed := by
  apply List.ext_getElem?
  intro j
  rw [List.getElem?_map, List.getElem?_map, List.getElem?_modify]
  cases l[j]? with
  | none => rfl
  | some td =>
      by_cases hij : i = j
      · simp [hij, hf]
      · simp [hij]

theorem map_fixed_mapIdx {l : List IndexedTransfer} {f : Nat → IndexedTransfer → IndexedTransfer}
    (hf : ∀ i td, (f i td).fixed = td.fixed) :
    (l.mapIdx f).map IndexedTransfer.fixed = l.map IndexedTransfer.fixed := by
  apply List.ext_getElem?
  intro j
  rw [List.getElem?_map, List.getElem?_map, List.getElem?_mapIdx, Option.map_map]
  congr 1
  funext td
  exact hf j td

theorem Sound.modifyTransfer (h : w.Sound outs) (i : Nat) (change : BitVec 32 → BitVec 32)
    (spentHeight : Nat → Nat) : (w.modifyTransfer i change spentHeight).Sound outs :=
  h.withTransfers (map_fixed_modify fun _ => rfl)

theorem Sound.foldl_modifyTransfer (h : w.Sound outs) (l : List Nat)
    (change : BitVec 32 → BitVec 32) (spentHeight : Nat → Nat) :
    (l.foldl (fun w i => w.modifyTransfer i change spentHeight) w).Sound outs := by
  induction l generalizing w with
  | nil => exact h
  | cons i l ih => exact ih (h.modifyTransfer i change spentHeight)

theorem Sound.withFreeAmounts (h : w.Sound outs) {foundFreeAmounts : List FreeAmountEntry}
    {fakeOutputsCount : Nat} (hfree : ∀ p ∈ pairs foundFreeAmounts, p.2 < outs.length) :
    ({ w with foundFreeAmounts, fakeOutputsCount } : IndexedWallet).Sound outs :=
  { h with foundFreeAmounts := hfree }

theorem Sound.clearCache (h : w.Sound outs) :
    ({ w with foundFreeAmounts := [] } : IndexedWallet).Sound outs :=
  h.withFreeAmounts (List.forall_mem_nil _)

theorem Sound.withMoneyExpirations (h : w.Sound outs) {moneyExpirations : List ExpirationEntryInfo}
    (hmoney : ∀ e ∈ moneyExpirations, ∀ i ∈ e.selectedTransfers, i < outs.length) :
    ({ w with moneyExpirations } : IndexedWallet).Sound outs :=
  { h with moneyExpirations := hmoney }

theorem Sound.removeTransferFromExpirationList (h : w.Sound outs) (i : Nat) :
    (w.removeTransferFromExpirationList i).Sound outs := by
  have hmoney : ∀ e ∈ w.moneyExpirations.filterMap (fun e : ExpirationEntryInfo =>
      if i ∈ e.selectedTransfers then
        if e.selectedTransfers.erase i = [] then none
        else some { e with selectedTransfers := e.selectedTransfers.erase i }
      else some e), ∀ j ∈ e.selectedTransfers, j < outs.length := by
    intro e he j hj
    obtain ⟨e₀, he₀, hsome⟩ := List.mem_filterMap.mp he
    have hold := h.moneyExpirations e₀ he₀ j
    split at hsome
    · split at hsome
      · cases hsome
      · cases hsome
        exact hold (List.mem_of_mem_erase hj)
    · cases hsome
      exact hold hj
  exact (h.withMoneyExpirations hmoney).modifyTransfer i _ _

theorem Sound.update {α : Type} [DecidableEq α] {m : α → Option Nat}
    (hm : ∀ k i, m k = some i → i < outs.length) {k₀ : α} {v : Option Nat}
    (hv : ∀ i, v = some i → i < outs.length) :
    ∀ k i, Function.update m k₀ v k = some i → i < outs.length := by
  intro k i hk
  rw [Function.update_apply] at hk
  split at hk
  · exact hv i hk
  · exact hm k i hk

theorem Sound.addSentUnconfirmedTx (h : w.Sound outs) (txHash : Hash) {selectedIndicies : List Nat}
    (hselected : ∀ i ∈ selectedIndicies, i < outs.length) :
    (w.addSentUnconfirmedTx txHash selectedIndicies).Sound outs := by
  have hupdate : ∀ k l, Function.update w.unconfirmedTxs txHash (some selectedIndicies) k = some l →
      ∀ i ∈ l, i < outs.length := by
    intro k l hl
    rw [Function.update_apply] at hl
    split at hl
    · cases hl
      exact hselected
    · exact h.unconfirmedTxs k l hl
  exact { h with unconfirmedTxs := hupdate }

/-! ### Transactions -/

theorem Sound.processInput (h : w.Sound outs) (height : Nat) (input : Txin) :
    (processInput height w input).1.Sound outs := by
  unfold IndexedWallet.processInput
  split
  case h_1 input =>
    split
    · exact h
    · exact h
    · exact (h.modifyTransfer _ _ _).removeTransferFromExpirationList _
  case h_2 input =>
    split
    · exact h
    · rename_i tid _
      exact h.modifyTransfer tid id fun _ => height
  case h_3 => exact h

theorem Sound.forgetUnconfirmed (h : w.Sound outs) {unconfirmedTxs : Hash → Option (List Nat)}
    (hsub : ∀ k l, unconfirmedTxs k = some l → w.unconfirmedTxs k = some l) :
    ({ w with unconfirmedTxs } : IndexedWallet).Sound outs :=
  { h with unconfirmedTxs := fun k l hl => h.unconfirmedTxs k l (hsub k l hl) }

/-- A transfer is added at the end. -/
theorem Sound.append (h : w.Sound outs) (td : IndexedTransfer) :
    ({ w with transfers := w.transfers ++ [td] } : IndexedWallet).Sound (outs ++ [td.fixed]) := by
  have hmono : ∀ {i}, i < outs.length → i < (outs ++ [td.fixed]).length := by
    intro i hi
    rw [List.length_append]
    exact Nat.lt_add_right _ hi
  exact {
    fixed := by rw [List.map_append, h.fixed, List.map_singleton]
    keyImages := by
      intro k i hk
      rw [List.getElem?_append_left (h.keyImages_lt hk)]
      exact h.keyImages k i hk
    amountGindex := fun k i hk => hmono (h.amountGindex k i hk)
    htlcs := by
      intro e he
      rw [List.getElem?_append_left (h.htlcs_lt he)]
      exact h.htlcs e he
    htlcsNodup := h.htlcsNodup
    activeHtlcs := fun k i hk => hmono (h.activeHtlcs k i hk)
    activeHtlcsTxid := fun k i hk => hmono (h.activeHtlcsTxid k i hk)
    foundFreeAmounts := fun p hp => hmono (h.foundFreeAmounts p hp)
    moneyExpirations := fun e he i hi => hmono (h.moneyExpirations e he i hi)
    unconfirmedTxs := fun k l hl i hi => hmono (h.unconfirmedTxs k l hl i hi) }

theorem Sound.recordHtlc (h : w.Sound outs) (txHash : Hash) {td : IndexedTransfer} (out : OwnOutput)
    {i : Nat} (hi : outs[i]? = some td.fixed) (hnew : ∀ e ∈ w.htlcs, e.2.transferIndex ≠ i) :
    (w.recordHtlc txHash td out i).Sound outs := by
  have hlt := (List.getElem?_eq_some_iff.mp hi).1
  have hindex : ∀ j, some i = some j → j < outs.length := by
    intro j hj
    exact Option.some.inj hj ▸ hlt
  have hnodup : ((w.htlcs.map fun e => e.2.transferIndex) ++ [i]).Nodup := by
    refine h.htlcsNodup.append (List.nodup_singleton i) ?_
    intro j hj hj'
    obtain ⟨e, he, rfl⟩ := List.mem_map.mp hj
    exact hnew e he (List.mem_singleton.mp hj')
  unfold IndexedWallet.recordHtlc
  split
  case h_1 => exact h
  case h_2 expiredIfMoreThen hexpiration =>
    refine { h with htlcs := ?_, htlcsNodup := ?_
                    activeHtlcs := Sound.update h.activeHtlcs hindex
                    activeHtlcsTxid := Sound.update h.activeHtlcsTxid hindex }
    · intro e he
      rcases List.mem_append.mp he with he | he
      · exact h.htlcs e he
      · rw [List.mem_singleton.mp he, hi]
        exact hexpiration
    · simpa only [List.map_append, List.map_singleton] using hnodup

theorem Sound.recordKeyImage (h : w.Sound outs) {k : KeyImage} {i : Nat}
    (hi : (outs[i]?).map IndexedTransfer.keyImage = some k) : (w.recordKeyImage k i).Sound outs := by
  unfold IndexedWallet.recordKeyImage
  split
  case isTrue => exact h
  case isFalse hnull =>
    refine { h with keyImages := ?_ }
    intro k' j hj
    change Function.update w.keyImages k (some i) k' = some j at hj
    rw [Function.update_apply] at hj
    split at hj
    case isTrue heq =>
      cases hj
      subst heq
      exact ⟨hnull, hi⟩
    case isFalse => exact h.keyImages k' j hj

theorem Sound.recordAmountGindex (h : w.Sound outs) (td : IndexedTransfer) {i : Nat}
    (hi : i < outs.length) : (w.recordAmountGindex td i).Sound outs := by
  have hindex : ∀ j, some i = some j → j < outs.length := by
    intro j hj
    exact Option.some.inj hj ▸ hi
  unfold IndexedWallet.recordAmountGindex
  split
  · exact { h with amountGindex := Sound.update h.amountGindex hindex }
  · exact h

theorem Sound.insertFreeAmount (h : w.Sound outs) (amount : UInt64) {i : Nat} (hi : i < outs.length) :
    ({ w with foundFreeAmounts := insertFreeAmount w.foundFreeAmounts amount i } : IndexedWallet).Sound
      outs := by
  refine h.withFreeAmounts ?_
  intro p hp
  rcases mem_insertFreeAmount.mp hp with rfl | hp
  · exact hi
  · exact h.foundFreeAmounts p hp

/-- An output adds one transfer, or none. -/
theorem Sound.processOutput (h : w.Sound outs) (tx : Transaction) (txHash : Hash) (height : Nat)
    (out : OwnOutput) : ∃ more, (w.processOutput tx txHash height out).Sound (outs ++ more) := by
  unfold IndexedWallet.processOutput
  split
  case isTrue => exact ⟨[], (List.append_nil outs).symm ▸ h⟩
  case isFalse =>
    generalize htd : out.transfer tx height = td
    have hkey : out.keyImage = td.keyImage := by rw [← htd]; rfl
    have hget : (outs ++ [td.fixed])[w.transfers.length]? = some td.fixed := by
      rw [h.length_eq, List.getElem?_concat_length]
    have hlt := (List.getElem?_eq_some_iff.mp hget).1
    refine ⟨[td.fixed], ?_⟩
    have hhtlc := (h.append td).recordHtlc txHash out hget
      fun e he => h.length_eq ▸ (h.htlcs_lt he).ne
    have hmap : ((outs ++ [td.fixed])[w.transfers.length]?).map IndexedTransfer.keyImage =
        some out.keyImage := by
      rw [hget, hkey]
      rfl
    exact ((hhtlc.recordKeyImage hmap).insertFreeAmount td.amountWord hlt).recordAmountGindex td hlt

theorem Sound.processNewTransaction (h : w.Sound outs) (tx : Transaction) (txHash : Hash)
    (height : Nat) (own : List OwnOutput) :
    ∃ more, (w.processNewTransaction tx txHash height own).1.Sound (outs ++ more) := by
  have hunconfirmed : ({ w with
      unconfirmedTxs := Function.update w.unconfirmedTxs txHash none } : IndexedWallet).Sound outs := by
    refine h.forgetUnconfirmed ?_
    intro k l hl
    rw [Function.update_apply] at hl
    split at hl
    · cases hl
    · exact hl
  have hinputs : (w.processInputs tx txHash height).1.Sound outs :=
    goThrough_induct (P := fun v : IndexedWallet => v.Sound outs) (fun _ input h => h.processInput height input)
      hunconfirmed
  have houtputs : ∀ (own : List OwnOutput) (w : IndexedWallet) (outs : List IndexedTransfer),
      w.Sound outs → ∃ more,
        (own.foldl (fun w out => w.processOutput tx txHash height out) w).Sound (outs ++ more) := by
    intro own
    induction own with
    | nil => exact fun w outs h => ⟨[], (List.append_nil outs).symm ▸ h⟩
    | cons out own ih =>
        intro w outs h
        obtain ⟨first, hfirst⟩ := h.processOutput tx txHash height out
        obtain ⟨more, hmore⟩ := ih _ _ hfirst
        exact ⟨first ++ more, (List.append_assoc outs first more) ▸ hmore⟩
  unfold IndexedWallet.processNewTransaction
  split
  · rename_i heq
    rw [heq] at hinputs
    exact houtputs own _ outs hinputs
  · rename_i heq
    rw [heq] at hinputs
    exact ⟨[], (List.append_nil outs).symm ▸ hinputs⟩

/-! ### HTLCs at a height -/

theorem Sound.withActiveHtlcs (h : w.Sound outs) {activeHtlcs : Nat × Nat → Option Nat}
    {activeHtlcsTxid : Hash → Option Nat}
    (hactive : ∀ k i, activeHtlcs k = some i → i < outs.length)
    (htxid : ∀ k i, activeHtlcsTxid k = some i → i < outs.length) :
    ({ w with activeHtlcs, activeHtlcsTxid } : IndexedWallet).Sound outs :=
  { h with activeHtlcs := hactive, activeHtlcsTxid := htxid }

theorem Sound.expireHtlcTransfer (h : w.Sound outs) (height : Nat)
    (trigger : HtlcExpirationTrigger) : (w.expireHtlcTransfer height trigger).Sound outs := by
  unfold IndexedWallet.expireHtlcTransfer
  apply Sound.clearCache
  split <;> exact h.modifyTransfer _ _ _

theorem Sound.unexpireHtlcTransfer (h : w.Sound outs) (trigger : HtlcExpirationTrigger) :
    (w.unexpireHtlcTransfer trigger).Sound outs := by
  unfold IndexedWallet.unexpireHtlcTransfer
  have hflags := h.modifyTransfer trigger.transferIndex (· ||| walletTransferDetailFlagSpent)
    fun _ => 0
  split
  · exact hflags
  · exact hflags.clearCache

theorem Sound.deactivateHtlc (h : w.Sound outs) (hash : Transaction → Hash) (height : Nat)
    (trigger : HtlcExpirationTrigger) : (deactivateHtlc hash height w trigger).Sound outs := by
  have hexpired := h.expireHtlcTransfer height trigger
  have hnone : ∀ i, (none : Option Nat) = some i → i < outs.length := by
    intro i hi
    cases hi
  unfold IndexedWallet.deactivateHtlc
  generalize w.expireHtlcTransfer height trigger = v at hexpired ⊢
  dsimp only
  split
  · exact hexpired
  · split
    · exact hexpired.withActiveHtlcs (Sound.update hexpired.activeHtlcs hnone)
        (Sound.update hexpired.activeHtlcsTxid hnone)
    · exact hexpired

theorem Sound.reactivateHtlc (h : w.Sound outs) (hash : Transaction → Hash)
    {trigger : HtlcExpirationTrigger} (htrigger : trigger.transferIndex < outs.length) :
    (reactivateHtlc hash w trigger).Sound outs := by
  have hactive := h.unexpireHtlcTransfer trigger
  have hindex : ∀ i, some trigger.transferIndex = some i → i < outs.length := by
    intro i hi
    exact Option.some.inj hi ▸ htrigger
  unfold IndexedWallet.reactivateHtlc
  generalize w.unexpireHtlcTransfer trigger = v at hactive ⊢
  dsimp only
  split
  · exact hactive
  · exact hactive.withActiveHtlcs (Sound.update hactive.activeHtlcs hindex)
      (Sound.update hactive.activeHtlcsTxid hindex)

theorem Sound.expiring_lt (h : w.Sound outs) {height : Nat} {trigger : HtlcExpirationTrigger}
    (htrigger : trigger ∈ w.expiringHtlcs height) : trigger.transferIndex < outs.length := by
  obtain ⟨e, he, rfl⟩ := List.mem_map.mp htrigger
  exact h.htlcs_lt (List.mem_of_mem_filter he)

theorem Sound.processHtlcTriggers (h : w.Sound outs) (hash : Transaction → Hash) (height : Nat) :
    (processHtlcTriggersOnBlockAdded hash w height).Sound outs := by
  unfold processHtlcTriggersOnBlockAdded
  generalize w.expiringHtlcs height = triggers
  induction triggers generalizing w with
  | nil => exact h
  | cons trigger triggers ih => exact ih (h.deactivateHtlc hash height trigger)

theorem Sound.unprocessHtlcTriggers (h : w.Sound outs) (hash : Transaction → Hash) (height : Nat) :
    (unprocessHtlcTriggersOnBlockRemoved hash w height).Sound outs := by
  unfold unprocessHtlcTriggersOnBlockRemoved
  have hlt : ∀ trigger ∈ w.expiringHtlcs height, trigger.transferIndex < outs.length :=
    fun _ => h.expiring_lt
  generalize w.expiringHtlcs height = triggers at hlt ⊢
  induction triggers generalizing w with
  | nil => exact h
  | cons trigger triggers ih =>
      obtain ⟨hhead, htail⟩ := List.forall_mem_cons.mp hlt
      exact ih (h.reactivateHtlc hash hhead) htail

/-! ### The cache and the selections -/

theorem cacheView_length : w.cacheView.transfers.length = w.transfers.length :=
  List.length_map _

theorem Sound.withCache (h : w.Sound outs) {v : TransfersWallet}
    (hv : ∀ p ∈ pairs v.foundFreeAmounts, p.2 < outs.length) : (w.withCache v).Sound outs :=
  h.withFreeAmounts hv

theorem Sound.prepared_lt (h : w.Sound outs) (fakeOutputsCount : Nat) :
    ∀ p ∈ pairs (w.cacheView.prepareFreeTransfersCache fakeOutputsCount).foundFreeAmounts,
      p.2 < outs.length := by
  unfold TransfersWallet.prepareFreeTransfersCache
  split
  case isTrue =>
    intro p hp
    have hmem := TransfersWallet.mem_insertIndexes.mp hp
    have hlt := List.mem_range.mp (hmem.resolve_left List.not_mem_nil).1
    rwa [cacheView_length, h.length_eq] at hlt
  case isFalse => exact h.foundFreeAmounts

/-- What is selected was in the cache that was prepared. -/
theorem Sound.selectTransfers (h : w.Sound outs) (neededMoney : UInt64)
    (fakeOutputsCount dust : Nat) :
    (w.selectTransfers neededMoney fakeOutputsCount dust).2.Sound outs ∧
      ∀ i ∈ (w.selectTransfers neededMoney fakeOutputsCount dust).1.selectedIndexes,
        i < outs.length := by
  obtain ⟨hleft, hselected⟩ :=
    w.cacheView.selectTransfers_selected neededMoney fakeOutputsCount dust
  have hprepared := h.prepared_lt fakeOutputsCount
  refine ⟨h.withCache fun p hp => hprepared p (hleft p hp), fun i hi => ?_⟩
  obtain ⟨_, p, hp, rfl⟩ := hselected i hi
  exact hprepared p hp

theorem Sound.addTransfersToTransfersCache (h : w.Sound outs) {indexs : List Nat}
    (hindexs : ∀ i ∈ indexs, i < outs.length) : (w.addTransfersToTransfersCache indexs).Sound outs := by
  refine h.withCache ?_
  intro p hp
  rcases TransfersWallet.mem_addTransfersToTransfersCache.mp hp with hp | hp
  · exact h.foundFreeAmounts p hp
  · exact hindexs p.2 hp.1

theorem Sound.releaseHold (h : w.Sound outs) (flag : BitVec 32) {hold : List Nat}
    (hhold : ∀ i ∈ hold, i < outs.length) : (releaseHold flag w hold).Sound outs :=
  (h.foldl_modifyTransfer hold _ _).addTransfersToTransfersCache hhold

theorem Sound.holdSources (h : w.Sound outs) (dust : Nat) (amounts : List UInt64) :
    (holdSources dust amounts w).2.Sound outs ∧
      ∀ hold ∈ (holdSources dust amounts w).1, ∀ i ∈ hold, i < outs.length := by
  induction amounts generalizing w with
  | nil => exact ⟨h, List.forall_mem_nil _⟩
  | cons am amounts ih =>
      obtain ⟨hw, hselected⟩ := h.selectTransfers am 0 dust
      unfold IndexedWallet.holdSources
      dsimp only
      split
      · exact ⟨hw, List.forall_mem_singleton.mpr hselected⟩
      · obtain ⟨hrest, hholds⟩ := ih (hw.foldl_modifyTransfer _ _ _)
        exact ⟨hrest, List.forall_mem_cons.mpr ⟨hselected, hholds⟩⟩

theorem Sound.checkAvailableSources (h : w.Sound outs) (amounts : List UInt64) (dust : Nat) :
    (w.checkAvailableSources amounts dust).Sound outs := by
  obtain ⟨hw, hholds⟩ := h.holdSources dust amounts
  unfold IndexedWallet.checkAvailableSources
  dsimp only
  generalize (IndexedWallet.holdSources dust amounts w).2 = v at hw ⊢
  generalize (IndexedWallet.holdSources dust amounts w).1 = holds at hholds ⊢
  induction holds generalizing v with
  | nil => exact hw
  | cons hold holds ih =>
      obtain ⟨hhold, hholds⟩ := List.forall_mem_cons.mp hholds
      exact ih _ (hw.releaseHold _ hhold) hholds

theorem Sound.failedEscrowProposal (h : w.Sound outs)
    (templateMoney proposalMoney : UInt64) (fakeOutputsCount dust : Nat) (exceptionHandler : Bool) :
    (w.failedEscrowProposal templateMoney proposalMoney fakeOutputsCount dust
      exceptionHandler).Sound outs := by
  obtain ⟨hw, htemplate⟩ := h.selectTransfers templateMoney fakeOutputsCount dust
  have hmarked := hw.foldl_modifyTransfer
    (w.selectTransfers templateMoney fakeOutputsCount dust).1.selectedIndexes
    (· ||| escrowTemplateMask) id
  have hproposal := (hmarked.selectTransfers proposalMoney fakeOutputsCount dust).1
  unfold IndexedWallet.failedEscrowProposal
  apply Sound.releaseHold _ _ htemplate
  split
  · exact hproposal.clearCache
  · exact hproposal

theorem Sound.select (h : w.Sound outs) (hash : Transaction → Hash)
    (neededMoney : UInt64) (fakeOutputsCount dust : Nat) (sent : Option Transaction) :
    (select hash w neededMoney fakeOutputsCount dust sent).Sound outs := by
  obtain ⟨hw, hselected⟩ := h.selectTransfers neededMoney fakeOutputsCount dust
  cases sent with
  | none => exact hw
  | some tx => exact hw.addSentUnconfirmedTx (hash tx) hselected

theorem Sound.pack (h : w.Sound outs) (hash : Transaction → Hash)
    (fakeOutputsCount posMintPackingSize : Nat) (sent : Option Transaction) :
    (pack hash w fakeOutputsCount posMintPackingSize sent).Sound outs := by
  have hprepared := h.prepared_lt fakeOutputsCount
  unfold IndexedWallet.pack TransfersWallet.prepareTxSourcesForPacking
  generalize w.cacheView.prepareFreeTransfersCache fakeOutputsCount = v at hprepared ⊢
  dsimp only
  cases hlookup : v.foundFreeAmounts.lookup currencyBlockReward with
  | none => exact h.withCache hprepared
  | some indexes =>
      dsimp only
      by_cases hfew : indexes.length < posMintPackingSize
      · rw [if_pos hfew]
        exact h.withCache hprepared
      · rw [if_neg hfew]
        have hrest (picked : List Nat) : (w.withCache { v with
            foundFreeAmounts :=
              eraseFrom currencyBlockReward (·.filter (· ∉ picked)) v.foundFreeAmounts }).Sound outs :=
          h.withCache fun p hp =>
            hprepared p ((pairs_eraseFrom fun _ => List.filter_sublist).subset hp)
        cases sent with
        | none => exact hrest _
        | some tx =>
            refine (hrest _).addSentUnconfirmedTx (hash tx) fun i hi => ?_
            have hi' := List.mem_of_mem_filter (List.mem_of_mem_take hi)
            obtain ⟨before, after, hentries, _⟩ := List.lookup_eq_some_iff.mp hlookup
            refine hprepared (currencyBlockReward, i) (mem_pairs.mpr ⟨indexes, ?_, hi'⟩)
            rw [hentries]
            exact List.mem_append_right _ List.mem_cons_self

/-! ### Reservations and the pool -/

theorem Sound.scanTxToKeyInputs_lt (h : w.Sound outs) (tx : Transaction) :
    ∀ i ∈ w.scanTxToKeyInputs tx, i < outs.length := by
  intro i hi
  obtain ⟨input, _, hinput⟩ := List.mem_filterMap.mp hi
  split at hinput
  · exact h.keyImages_lt hinput
  · cases hinput

theorem Sound.addTransfersToExpirationList (h : w.Sound outs) {selectedTransfers : List Nat}
    (hselected : ∀ i ∈ selectedTransfers, i < outs.length) (expiration : UInt64) :
    (w.addTransfersToExpirationList selectedTransfers expiration).Sound outs := by
  unfold IndexedWallet.addTransfersToExpirationList
  dsimp only
  split
  · exact h
  · refine Sound.foldl_modifyTransfer (h.withMoneyExpirations ?_) _ _ _
    intro e he
    rcases List.mem_append.mp he with he | he
    · exact h.moneyExpirations e he
    · rw [List.mem_singleton.mp he]
      exact fun i hi => hselected i (List.mem_of_mem_filter hi)

theorem Sound.spentTransferId_lt (h : w.Sound outs) {input : TxinToKey} {i : Nat}
    (hi : w.spentTransferId input = some (some i)) : i < outs.length := by
  unfold spentTransferId at hi
  split at hi
  · split at hi
    · cases hi
    · obtain ⟨_, gindex, _, hgindex⟩ := directlySpentTransferId_some hi
      exact h.amountGindex _ i hgindex
  · exact h.keyImages_lt (Option.some.inj hi)

theorem Sound.scanPoolInputs_lt (h : w.Sound outs) {inputs : List Txin} {tids : List Nat}
    (htids : w.scanPoolInputs inputs = some tids) : ∀ i ∈ tids, i < outs.length := by
  induction inputs generalizing tids with
  | nil =>
      cases htids
      exact List.forall_mem_nil _
  | cons x rest ih =>
      cases x with
      | toKey input =>
          obtain ⟨tid, htid, hrest⟩ := Option.bind_eq_some_iff.mp htids
          obtain ⟨more, hmore, htids⟩ := Option.bind_eq_some_iff.mp hrest
          cases htids
          intro i hi
          rcases List.mem_append.mp hi with hi | hi
          · rw [Option.mem_toList.mp hi] at htid
            exact h.spentTransferId_lt htid
          · exact ih hmore i hi
      | gen | multisig | htlc => exact ih htids

theorem Sound.scanPoolTransaction (h : w.Sound outs) (hash : Transaction → Hash)
    (tx : Transaction) : (scanPoolTransaction hash w tx).Sound outs := by
  unfold IndexedWallet.scanPoolTransaction
  split
  · exact h
  · split
    · exact h
    · rename_i htids
      refine Sound.addSentUnconfirmedTx (h.foldl_modifyTransfer _ _ _) (hash tx) ?_
      exact fun i hi => h.scanPoolInputs_lt htids i (List.mem_of_mem_filter hi)

theorem Sound.handleExpirationList (h : w.Sound outs) (txExpirationTsMedian : UInt64) :
    (w.handleExpirationList txExpirationTsMedian).Sound outs := by
  have hmoney (test : ExpirationEntryInfo → Bool) :
      ({ w with moneyExpirations := w.moneyExpirations.filter test } : IndexedWallet).Sound outs :=
    h.withMoneyExpirations fun e he => h.moneyExpirations e (List.mem_of_mem_filter he)
  refine (hmoney _).withTransfers (map_fixed_mapIdx ?_)
  intro i td
  split <;> rfl

/-! ## Detaching -/

/-- Entries are taken out of the containers that a detach looks through. -/
structure Forgets (w w' : IndexedWallet) : Prop where
  rest : w' = { w with
    keyImages := w'.keyImages
    amountGindexToTransferId := w'.amountGindexToTransferId
    htlcs := w'.htlcs }
  keyImages : ∀ k i, w'.keyImages k = some i → w.keyImages k = some i
  amountGindex : ∀ k i, w'.amountGindexToTransferId k = some i →
    w.amountGindexToTransferId k = some i
  htlcs : w'.htlcs.Sublist w.htlcs

theorem Forgets.refl (w : IndexedWallet) : w.Forgets w :=
  ⟨rfl, fun _ _ => id, fun _ _ => id, List.Sublist.refl _⟩

theorem Forgets.trans {v u : IndexedWallet} (h₁ : w.Forgets v) (h₂ : v.Forgets u) :
    w.Forgets u where
  rest := by
    rw [h₂.rest, h₁.rest]
  keyImages k i hk := h₁.keyImages k i (h₂.keyImages k i hk)
  amountGindex k i hk := h₁.amountGindex k i (h₂.amountGindex k i hk)
  htlcs := h₂.htlcs.trans h₁.htlcs

theorem Sound.forgets (h : w.Sound outs) {v : IndexedWallet} (hv : w.Forgets v) :
    v.Sound outs := by
  rw [hv.rest]
  exact { h with
    keyImages := fun k i hk => h.keyImages k i (hv.keyImages k i hk)
    amountGindex := fun k i hk => h.amountGindex k i (hv.amountGindex k i hk)
    htlcs := fun e he => h.htlcs e (hv.htlcs.subset he)
    htlcsNodup := h.htlcsNodup.sublist (hv.htlcs.map _) }

/-- None of these containers holds the index. -/
structure Freed (w : IndexedWallet) (i : Nat) : Prop where
  keyImages : ∀ k, w.keyImages k ≠ some i
  amountGindex : ∀ k, w.amountGindexToTransferId k ≠ some i
  htlcs : ∀ e ∈ w.htlcs, e.2.transferIndex ≠ i

theorem Freed.forgets {i : Nat} (h : w.Freed i) {v : IndexedWallet} (hv : w.Forgets v) :
    v.Freed i where
  keyImages k hk := h.keyImages k (hv.keyImages k i hk)
  amountGindex k hk := h.amountGindex k (hv.amountGindex k i hk)
  htlcs e he := h.htlcs e (hv.htlcs.subset he)

theorem Sound.forgetKeyImage (h : w.Sound outs) {i : Nat} {td : IndexedTransfer}
    (hi : outs[i]? = some td.fixed) (includingHeight : Nat) :
    w.Forgets (w.forgetKeyImage includingHeight i td).1 ∧
      ((w.forgetKeyImage includingHeight i td).2 = true →
        (∀ k, (w.forgetKeyImage includingHeight i td).1.keyImages k ≠ some i) ∧
          ∀ k, (w.forgetKeyImage includingHeight i td).1.amountGindexToTransferId k ≠ some i) := by
  have hown : ∀ k, w.keyImages k = some i → k ≠ nullKi ∧ td.keyImage = k := by
    intro k hk
    obtain ⟨hnull, hkey⟩ := h.keyImages k i hk
    rw [hi] at hkey
    exact ⟨hnull, Option.some.inj hkey⟩
  have hgindex : ∀ k j, (if w.amountGindexToTransferId k = some i then none
      else w.amountGindexToTransferId k) = some j →
      w.amountGindexToTransferId k = some j ∧ j ≠ i := by
    intro k j hk
    split at hk
    case isTrue => cases hk
    case isFalse hne =>
      refine ⟨hk, ?_⟩
      rintro rfl
      exact hne hk
  unfold IndexedWallet.forgetKeyImage
  dsimp only
  split
  case isTrue hwatch =>
    -- the key image is not known, so that no entry has it
    refine ⟨⟨rfl, fun _ _ => id, fun k j hk => (hgindex k j hk).1, List.Sublist.refl _⟩, ?_⟩
    refine fun _ => ⟨?_, fun k hk => (hgindex k i hk).2 rfl⟩
    intro k hk
    obtain ⟨hnull, hkey⟩ := hown k hk
    exact hnull (hkey.symm.trans hwatch.1)
  case isFalse =>
    split
    case isTrue => exact ⟨Forgets.refl w, nofun⟩
    case isFalse =>
      have hupdate : ∀ k j, Function.update w.keyImages td.keyImage none k = some j →
          k ≠ td.keyImage ∧ w.keyImages k = some j := by
        intro k j hk
        rw [Function.update_apply] at hk
        split at hk
        case isTrue => cases hk
        case isFalse hne => exact ⟨hne, hk⟩
      refine ⟨⟨rfl, fun k j hk => (hupdate k j hk).2, fun k j hk => (hgindex k j hk).1,
        List.Sublist.refl _⟩, ?_⟩
      refine fun _ => ⟨?_, fun k hk => (hgindex k i hk).2 rfl⟩
      intro k hk
      obtain ⟨hne, hold⟩ := hupdate k i hk
      exact hne (hown k hold).2.symm

/-- The one entry that the test finds was the one of the index. -/
theorem ne_of_mem_eraseP {l : List (Nat × HtlcExpirationTrigger)} {i : Nat}
    {test : Nat × HtlcExpirationTrigger → Bool}
    (hnodup : (l.map fun e => e.2.transferIndex).Nodup) (hany : l.any test = true)
    (htest : ∀ e, test e = true → e.2.transferIndex = i) :
    ∀ e ∈ l.eraseP test, e.2.transferIndex ≠ i := by
  obtain ⟨a, ha, hta⟩ := List.any_eq_true.mp hany
  obtain ⟨b, l₁, l₂, _, htb, hl, herase⟩ := List.exists_of_eraseP ha hta
  intro e he heq
  rw [herase] at he
  rw [hl] at hnodup
  have hperm : (l₁ ++ b :: l₂).Perm (b :: (l₁ ++ l₂)) := List.perm_middle
  have hcons := (hperm.map _).nodup_iff.mp hnodup
  rw [List.map_cons, List.nodup_cons] at hcons
  refine hcons.1 ?_
  rw [htest b htb, ← heq]
  exact List.mem_map_of_mem he

/-- One turn of the loop forgets its index, unless it throws. -/
theorem Sound.forgetTransfer (h : w.Sound outs) {i : Nat} (hi : i < outs.length)
    (includingHeight : Nat) :
    w.Forgets (w.forgetTransfer includingHeight i).1 ∧
      ((w.forgetTransfer includingHeight i).2 = true →
        (w.forgetTransfer includingHeight i).1.Freed i) := by
  obtain ⟨td, htd⟩ : ∃ td, w.transfers[i]? = some td :=
    ⟨_, List.getElem?_eq_getElem (h.length_eq ▸ hi)⟩
  have hget : outs[i]? = some td.fixed := by
    rw [← h.fixed, List.getElem?_map, htd]
    rfl
  have hexpires : ∀ e ∈ w.htlcs, e.2.transferIndex = i → td.htlcExpiration? = some e.1 := by
    intro e he heq
    have hentry := h.htlcs e he
    rw [heq, hget] at hentry
    exact hentry
  unfold IndexedWallet.forgetTransfer
  rw [htd]
  cases hexpiration : td.htlcExpiration? with
  | none =>
      obtain ⟨hforgets, hfreed⟩ := h.forgetKeyImage hget includingHeight
      refine ⟨by simpa only [hexpiration] using hforgets, ?_⟩
      simp only [hexpiration]
      intro hdone
      refine ⟨(hfreed hdone).1, (hfreed hdone).2, ?_⟩
      intro e he heq
      have hsome := hexpires e (hforgets.htlcs.subset he) heq
      rw [hexpiration] at hsome
      cases hsome
  | some expirationHeight =>
      simp only [hexpiration]
      split
      case isFalse => exact ⟨Forgets.refl w, nofun⟩
      case isTrue hany =>
        generalize htest : (fun e : Nat × HtlcExpirationTrigger =>
          decide (e.1 = expirationHeight) && decide (e.2.transferIndex = i)) = test at hany ⊢
        have herase : w.Forgets { w with htlcs := w.htlcs.eraseP test } :=
          ⟨rfl, fun _ _ => id, fun _ _ => id, List.eraseP_sublist⟩
        have hne := ne_of_mem_eraseP h.htlcsNodup hany
          (by rw [← htest]; simp) (i := i)
        obtain ⟨hforgets, hfreed⟩ := (h.forgets herase).forgetKeyImage hget includingHeight
        refine ⟨herase.trans hforgets, ?_⟩
        intro hdone
        exact ⟨(hfreed hdone).1, (hfreed hdone).2, fun e he => hne e (hforgets.htlcs.subset he)⟩

theorem Sound.forgetTransfers (h : w.Sound outs) (includingHeight : Nat) {l : List Nat}
    (hl : ∀ i ∈ l, i < outs.length) :
    w.Forgets (forgetTransfers includingHeight l w).1 ∧
      ((forgetTransfers includingHeight l w).2 = true →
        ∀ i ∈ l, (forgetTransfers includingHeight l w).1.Freed i) := by
  induction l generalizing w with
  | nil => exact ⟨Forgets.refl w, fun _ => List.forall_mem_nil _⟩
  | cons i l ih =>
      obtain ⟨hi, hl⟩ := List.forall_mem_cons.mp hl
      obtain ⟨hforgets, hfreed⟩ := h.forgetTransfer hi includingHeight
      unfold IndexedWallet.forgetTransfers
      cases hturn : w.forgetTransfer includingHeight i with
      | mk v done =>
          rw [hturn] at hforgets hfreed
          cases done with
          | false => exact ⟨hforgets, nofun⟩
          | true =>
              obtain ⟨hrest, hall⟩ := ih (h.forgets hforgets) hl
              refine ⟨hforgets.trans hrest, ?_⟩
              intro hdone
              exact List.forall_mem_cons.mpr ⟨(hfreed rfl).forgets hrest, hall hdone⟩

/-- The transfers are cut where no container holds an index any more. -/
theorem Sound.take (h : w.Sound outs) {n : Nat} (hn : ∀ c i, w.Holds c i → i < n) :
    ({ w with transfers := w.transfers.take n } : IndexedWallet).Sound (outs.take n) := by
  have hlt : ∀ {c i}, w.Holds c i → i < (outs.take n).length := by
    intro c i hc
    rw [List.length_take]
    exact lt_min (hn c i hc) (h.lt_of_holds hc)
  have hget : ∀ {c i}, w.Holds c i → (outs.take n)[i]? = outs[i]? := by
    intro c i hc
    exact List.getElem?_take_of_lt (hn c i hc)
  exact {
    fixed := by rw [List.map_take, h.fixed]
    keyImages := by
      intro k i hk
      have hc : w.Holds .keyImages i := ⟨k, hk⟩
      rw [hget hc]
      exact h.keyImages k i hk
    amountGindex := fun k i hk => @hlt .amountGindexToTransferId i ⟨k, hk⟩
    htlcs := by
      intro e he
      have hc : w.Holds .htlcs e.2.transferIndex := ⟨e, he, rfl⟩
      rw [hget hc]
      exact h.htlcs e he
    htlcsNodup := h.htlcsNodup
    activeHtlcs := fun k i hk => @hlt .activeHtlcs i ⟨k, hk⟩
    activeHtlcsTxid := fun k i hk => @hlt .activeHtlcsTxid i ⟨k, hk⟩
    foundFreeAmounts := fun p hp => @hlt .foundFreeAmounts p.2 ⟨p, hp, rfl⟩
    moneyExpirations := fun e he i hi => @hlt .moneyExpirations i ⟨e, he, hi⟩
    unconfirmedTxs := fun k l hl i hi => @hlt .unconfirmedTxs i ⟨k, l, hl, hi⟩ }

theorem Forgets.holds {v : IndexedWallet} (hv : w.Forgets v) {c : IndexContainer} {i : Nat}
    (hc : v.Holds c i) : w.Holds c i := by
  rw [hv.rest] at hc
  cases c with
  | keyImages =>
      obtain ⟨k, hk⟩ := hc
      exact ⟨k, hv.keyImages k i hk⟩
  | amountGindexToTransferId =>
      obtain ⟨k, hk⟩ := hc
      exact ⟨k, hv.amountGindex k i hk⟩
  | htlcs =>
      obtain ⟨e, he, heq⟩ := hc
      exact ⟨e, hv.htlcs.subset he, heq⟩
  | activeHtlcs => exact hc
  | activeHtlcsTxid => exact hc
  | foundFreeAmounts => exact hc
  | moneyExpirations => exact hc
  | unconfirmedTxs => exact hc

theorem Freed.not_holds {i : Nat} (h : w.Freed i) {c : IndexContainer}
    (hcut : c.cutByDetach = true) : ¬ w.Holds c i := by
  intro hc
  cases c with
  | keyImages =>
      obtain ⟨k, hk⟩ := hc
      exact h.keyImages k hk
  | amountGindexToTransferId =>
      obtain ⟨k, hk⟩ := hc
      exact h.amountGindex k hk
  | htlcs =>
      obtain ⟨e, he, heq⟩ := hc
      exact h.htlcs e he heq
  | _ => cases hcut

theorem lt_cutIndex {includingHeight i : Nat} (hi : i < w.transfers.length)
    (hbelow : w.BelowHeight includingHeight i) : i < w.cutIndex includingHeight := by
  unfold cutIndex
  by_contra hle
  have hfind := Nat.lt_of_le_of_lt (Nat.le_of_not_lt hle) hi
  have hcut := List.findIdx_getElem (w := hfind)
  have hmem : w.transfers[w.transfers.findIdx fun td => decide (includingHeight ≤ td.blockHeight)] ∈
      w.transfers.take (i + 1) := by
    refine List.mem_take_iff_getElem.mpr ⟨_, ?_, rfl⟩
    omega
  have hlow := hbelow _ hmem
  have hhigh := of_decide_eq_true hcut
  omega

/-- A detach cuts the transfers, or throws and keeps them all. -/
theorem Sound.detachBlockchain (h : w.Sound outs) (hash : Transaction → Hash)
    {includingHeight : Nat}
    (hbelow : ∀ c i, c.cutByDetach = false → w.Holds c i → w.BelowHeight includingHeight i) :
    ∃ n, (detachBlockchain hash w includingHeight).Sound (outs.take n) := by
  have hl : ∀ i ∈ List.range' (w.cutIndex includingHeight)
      (w.transfers.length - w.cutIndex includingHeight), i < outs.length := by
    intro i hi
    have hrange := List.mem_range'_1.mp hi
    have hlength := h.length_eq
    omega
  obtain ⟨hforgets, hfreed⟩ := h.forgetTransfers includingHeight hl
  have hsound := h.forgets hforgets
  unfold IndexedWallet.detachBlockchain
  dsimp only
  cases hloop : IndexedWallet.forgetTransfers includingHeight (List.range' (w.cutIndex includingHeight)
      (w.transfers.length - w.cutIndex includingHeight)) w with
  | mk v done =>
      rw [hloop] at hforgets hfreed hsound
      cases done with
      | false =>
          refine ⟨outs.length, ?_⟩
          rw [List.take_length]
          exact hsound
      | true =>
          have hn : ∀ c i, v.Holds c i → i < w.cutIndex includingHeight := by
            intro c i hc
            have hlt := h.lt_of_holds (hforgets.holds hc)
            rw [← h.length_eq] at hlt
            cases hcut : c.cutByDetach with
            | false => exact lt_cutIndex hlt (hbelow c i hcut (hforgets.holds hc))
            | true =>
                by_contra hle
                refine (hfreed rfl i (List.mem_range'_1.mpr ?_)).not_holds hcut hc
                omega
          have htake := hsound.take hn
          have hheights : ∀ (heights : List Nat) {u : IndexedWallet},
              u.Sound (outs.take (w.cutIndex includingHeight)) →
              (heights.foldl (unprocessHtlcTriggersOnBlockRemoved hash) u).Sound
                (outs.take (w.cutIndex includingHeight)) := by
            intro heights
            induction heights with
            | nil => exact id
            | cons height heights ih => exact fun hu => ih (hu.unprocessHtlcTriggers hash height)
          refine ⟨w.cutIndex includingHeight, ?_⟩
          refine { hheights _ htake with fixed := ?_ }
          rw [← (hheights _ htake).fixed, List.map_map]
          refine List.map_congr_left ?_
          intro td _
          simp only [Function.comp_apply]
          split <;> rfl

theorem Sound.resetAll (h : w.Sound outs)
    (hempty : ∀ c i, c.clearedByReset = false → ¬ w.Holds c i) : w.resetAll.Sound [] where
  fixed := rfl
  keyImages := nofun
  amountGindex := nofun
  htlcs e he := absurd ⟨e, he, rfl⟩ (hempty .htlcs e.2.transferIndex rfl)
  htlcsNodup := h.htlcsNodup
  activeHtlcs k i hk := absurd ⟨k, hk⟩ (hempty .activeHtlcs i rfl)
  activeHtlcsTxid k i hk := absurd ⟨k, hk⟩ (hempty .activeHtlcsTxid i rfl)
  foundFreeAmounts p hp := absurd ⟨p, hp, rfl⟩ (hempty .foundFreeAmounts p.2 rfl)
  moneyExpirations e he i hi := absurd ⟨e, he, hi⟩ (hempty .moneyExpirations i rfl)
  unconfirmedTxs := nofun

theorem Sound.associateKeyImage (h : w.Sound outs) {transferIndex : Nat} {keyImage : KeyImage}
    (hnull : keyImage ≠ nullKi) (hown : ∀ td, w.transfers[transferIndex]? = some td →
      td.keyImage = nullKi ∨ td.keyImage = keyImage) (hlt : transferIndex < w.transfers.length) :
    (w.associateKeyImage transferIndex keyImage).Sound
      (outs.modify transferIndex fun td => { td with keyImage }) := by
  have hlength : (outs.modify transferIndex fun td => { td with keyImage }).length = outs.length :=
    List.length_modify _ _ _
  have hold : ∀ k, w.keyImages k = some transferIndex → k = keyImage := by
    intro k hk
    obtain ⟨hk', hkey⟩ := h.keyImages k transferIndex hk
    rw [← h.fixed, List.getElem?_map, Option.map_map] at hkey
    obtain ⟨td, htd, rfl⟩ := Option.map_eq_some_iff.mp hkey
    exact (hown td htd).resolve_left hk'
  unfold IndexedWallet.associateKeyImage
  rw [if_pos hlt]
  exact {
    fixed := by
      rw [← h.fixed]
      apply List.ext_getElem?
      intro j
      rw [List.getElem?_map, List.getElem?_modify, List.getElem?_modify, List.getElem?_map]
      cases w.transfers[j]? with
      | none => rfl
      | some td =>
          by_cases hij : transferIndex = j
          · simp only [if_pos hij]
            rfl
          · simp only [if_neg hij]
            rfl
    keyImages := by
      intro k j hk
      change Function.update w.keyImages keyImage (some transferIndex) k = some j at hk
      rw [Function.update_apply] at hk
      rw [List.getElem?_modify]
      split at hk
      case isTrue heq =>
        cases hk
        refine ⟨heq ▸ hnull, ?_⟩
        rw [List.getElem?_eq_getElem (h.length_eq ▸ hlt)]
        simp [heq]
      case isFalse hne =>
        have hij : transferIndex ≠ j := by
          rintro rfl
          exact hne (hold k hk)
        simp only [if_neg hij, id_map']
        exact h.keyImages k j hk
    amountGindex := fun k i hk => hlength.symm ▸ h.amountGindex k i hk
    htlcs := by
      intro e he
      rw [← h.htlcs e he, List.getElem?_modify]
      cases outs[e.2.transferIndex]? with
      | none => rfl
      | some td =>
          by_cases hij : transferIndex = e.2.transferIndex
          · simp only [if_pos hij]
            rfl
          · simp only [if_neg hij]
            rfl
    htlcsNodup := h.htlcsNodup
    activeHtlcs := fun k i hk => hlength.symm ▸ h.activeHtlcs k i hk
    activeHtlcsTxid := fun k i hk => hlength.symm ▸ h.activeHtlcsTxid k i hk
    foundFreeAmounts := fun p hp => hlength.symm ▸ h.foundFreeAmounts p hp
    moneyExpirations := fun e he i hi => hlength.symm ▸ h.moneyExpirations e he i hi
    unconfirmedTxs := fun k l hl i hi => hlength.symm ▸ h.unconfirmedTxs k l hl i hi }

/-! ## Runs -/

/-- The output that a transfer is, and the height of its block. -/
def place (td : IndexedTransfer) : Transaction × Nat × Nat :=
  (td.tx, td.internalOutputIndex, td.blockHeight)

/-- What an index refers to. -/
def referredAt (w : IndexedWallet) (i : Nat) : Option (Transaction × Nat × Nat) :=
  (w.transfers[i]?).map place

theorem Sound.referredAt_eq (h : w.Sound outs) (i : Nat) :
    w.referredAt i = (outs[i]?).map place := by
  unfold referredAt
  rw [← h.fixed, List.getElem?_map, Option.map_map]
  rfl

/-- An index that is in range before and after a step refers to the same output. -/
def SamePlaces (outs outs' : List IndexedTransfer) : Prop :=
  ∀ i, i < outs.length → i < outs'.length → (outs[i]?).map place = (outs'[i]?).map place

theorem samePlaces_append (more : List IndexedTransfer) : SamePlaces outs (outs ++ more) := by
  intro i hi _
  rw [List.getElem?_append_left hi]

theorem samePlaces_take (n : Nat) : SamePlaces outs (outs.take n) := by
  intro i _ hi
  rw [List.length_take] at hi
  rw [List.getElem?_take_of_lt (by omega)]

theorem samePlaces_modify (i : Nat) (keyImage : KeyImage) :
    SamePlaces outs (outs.modify i fun td => { td with keyImage }) := by
  intro j _ _
  rw [List.getElem?_modify]
  cases outs[j]? with
  | none => rfl
  | some td =>
      by_cases hij : i = j
      · simp only [if_pos hij]
        rfl
      · simp only [if_neg hij]
        rfl

theorem Sound.step (h : w.Sound outs) (hash : Transaction → Hash) {event : IndexesEvent}
    (hsafe : w.StepSafe event) :
    ∃ outs', (w.step hash event).Sound outs' ∧ SamePlaces outs outs' := by
  have hsame : SamePlaces outs outs := fun _ _ _ => rfl
  cases event with
  | processNewTransaction tx height own =>
      obtain ⟨more, hmore⟩ := h.processNewTransaction tx (hash tx) height own
      exact ⟨_, hmore, samePlaces_append more⟩
  | blockAdded height => exact ⟨outs, h.processHtlcTriggers hash height, hsame⟩
  | advance blockchainCurrentSize coreTime => exact ⟨outs, { h with }, hsame⟩
  | detachBlockchain includingHeight =>
      obtain ⟨n, hn⟩ := h.detachBlockchain hash hsafe
      exact ⟨_, hn, samePlaces_take n⟩
  | resetAll => exact ⟨[], h.resetAll hsafe, fun _ _ hi => absurd hi (Nat.not_lt_zero _)⟩
  | changeFlags change => exact ⟨outs, h.withTransfers (map_fixed_mapIdx fun _ _ => rfl), hsame⟩
  | prefetchGlobalIndex i globalOutputIndex =>
      exact ⟨outs, h.withTransfers (map_fixed_modify fun _ => rfl), hsame⟩
  | prepareFreeTransfersCache fakeOutputsCount =>
      exact ⟨outs, h.withCache (h.prepared_lt fakeOutputsCount), hsame⟩
  | select neededMoney fakeOutputsCount dust sent =>
      exact ⟨outs, h.select hash neededMoney fakeOutputsCount dust sent, hsame⟩
  | pack fakeOutputsCount posMintPackingSize sent =>
      exact ⟨outs, h.pack hash fakeOutputsCount posMintPackingSize sent, hsame⟩
  | checkAvailableSources amounts dust => exact ⟨outs, h.checkAvailableSources amounts dust, hsame⟩
  | failedEscrowProposal templateMoney proposalMoney fakeOutputsCount dust exceptionHandler =>
      exact ⟨outs, h.failedEscrowProposal templateMoney proposalMoney fakeOutputsCount dust
        exceptionHandler, hsame⟩
  | clearCache => exact ⟨outs, h.clearCache, hsame⟩
  | lockTransfers tx expiration =>
      exact ⟨outs, h.addTransfersToExpirationList (h.scanTxToKeyInputs_lt tx) expiration, hsame⟩
  | scanPoolTransaction tx => exact ⟨outs, h.scanPoolTransaction hash tx, hsame⟩
  | forgetUnconfirmed outdated =>
      refine ⟨outs, h.forgetUnconfirmed ?_, hsame⟩
      intro k l hl
      split at hl
      · cases hl
      · exact hl
  | handleExpirationList txExpirationTsMedian =>
      exact ⟨outs, h.handleExpirationList txExpirationTsMedian, hsame⟩
  | submitTransfer tx selectedTransfers =>
      exact ⟨outs, h.addSentUnconfirmedTx (hash tx) fun i hi => h.length_eq ▸ hsafe i hi, hsame⟩
  | associateKeyImage transferIndex keyImage =>
      by_cases hlt : transferIndex < w.transfers.length
      · exact ⟨_, h.associateKeyImage hsafe.1 hsafe.2 hlt, samePlaces_modify transferIndex keyImage⟩
      · refine ⟨outs, ?_, hsame⟩
        unfold IndexedWallet.step IndexedWallet.associateKeyImage
        dsimp only
        rw [if_neg hlt]
        exact h

theorem Sound.run (h : w.Sound outs) (hash : Transaction → Hash) {events : List IndexesEvent}
    (hrun : w.RunSafe hash events) : ∃ outs', (w.run hash events).Sound outs' := by
  induction events generalizing w outs with
  | nil => exact ⟨outs, h⟩
  | cons event events ih =>
      obtain ⟨next, hnext, _⟩ := h.step hash hrun.1
      exact ih hnext hrun.2

theorem run_append (hash : Transaction → Hash) (before after : List IndexesEvent) :
    w.run hash (before ++ after) = (w.run hash before).run hash after :=
  List.foldl_append

theorem RunSafe.left {hash : Transaction → Hash} {before after : List IndexesEvent}
    (h : w.RunSafe hash (before ++ after)) : w.RunSafe hash before := by
  induction before generalizing w with
  | nil => trivial
  | cons event before ih => exact ⟨h.1, ih h.2⟩

theorem RunSafe.right {hash : Transaction → Hash} {before after : List IndexesEvent}
    (h : w.RunSafe hash (before ++ after)) : (w.run hash before).RunSafe hash after := by
  induction before generalizing w with
  | nil => exact h
  | cons event before ih => exact ih h.2

theorem empty_sound (watchOnly auditable : Bool) : (empty watchOnly auditable).Sound [] where
  fixed := rfl
  keyImages := nofun
  amountGindex := nofun
  htlcs := nofun
  htlcsNodup := List.nodup_nil
  activeHtlcs := nofun
  activeHtlcsTxid := nofun
  foundFreeAmounts := nofun
  moneyExpirations := nofun
  unconfirmedTxs := nofun

/-- No index dangles, and a key image or an HTLC that expires is the one of its transfer. -/
structure IndexesInPlace (w : IndexedWallet) : Prop where
  inRange : ∀ c i, w.Holds c i → i < w.transfers.length
  keyImages : ∀ k i, w.keyImages k = some i →
    (w.transfers[i]?).map IndexedTransfer.keyImage = some k
  htlcs : ∀ e ∈ w.htlcs,
    (w.transfers[e.2.transferIndex]?).bind IndexedTransfer.htlcExpiration? = some e.1

/-- A container holds the index in every state of a run. -/
def HeldThroughout (hash : Transaction → Hash) (w : IndexedWallet) (events : List IndexesEvent)
    (c : IndexContainer) (i : Nat) : Prop :=
  ∀ before, before <+: events → (w.run hash before).Holds c i

/-- In every state of a run the indexes are in place, and as long as a container holds an
index, it refers to the same output. -/
def IndexesTruthful (hash : Transaction → Hash) (w : IndexedWallet) (events : List IndexesEvent) :
    Prop :=
  (∀ before, before <+: events → (w.run hash before).IndexesInPlace) ∧
    ∀ before during, before ++ during <+: events → ∀ c i,
      HeldThroughout hash (w.run hash before) during c i →
        (w.run hash (before ++ during)).referredAt i = (w.run hash before).referredAt i

theorem Sound.indexesInPlace (h : w.Sound outs) : w.IndexesInPlace where
  inRange c i hc := h.length_eq ▸ h.lt_of_holds hc
  keyImages k i hk := by
    rw [← (h.keyImages k i hk).2, ← h.fixed, List.getElem?_map, Option.map_map]
    rfl
  htlcs e he := by
    rw [← h.htlcs e he, ← h.fixed, List.getElem?_map]
    cases w.transfers[e.2.transferIndex]? <;> rfl

theorem HeldThroughout.cons {hash : Transaction → Hash} {event : IndexesEvent}
    {events : List IndexesEvent} {c : IndexContainer} {i : Nat}
    (h : HeldThroughout hash w (event :: events) c i) :
    HeldThroughout hash (w.step hash event) events c i :=
  fun before hbefore => h (event :: before) (List.cons_prefix_cons.mpr ⟨rfl, hbefore⟩)

/-- An index that stays held stays with its output. -/
theorem Sound.referredAt_run (h : w.Sound outs) {hash : Transaction → Hash}
    {events : List IndexesEvent} (hrun : w.RunSafe hash events) {c : IndexContainer} {i : Nat}
    (hheld : HeldThroughout hash w events c i) :
    (w.run hash events).referredAt i = w.referredAt i := by
  induction events generalizing w outs with
  | nil => rfl
  | cons event events ih =>
      obtain ⟨next, hnext, hplaces⟩ := h.step hash hrun.1
      have hbefore := h.lt_of_holds (hheld [] List.nil_prefix)
      have hafter := hnext.lt_of_holds (hheld.cons [] List.nil_prefix)
      calc ((w.step hash event).run hash events).referredAt i
          = (w.step hash event).referredAt i := ih hnext hrun.2 hheld.cons
        _ = (next[i]?).map place := hnext.referredAt_eq i
        _ = (outs[i]?).map place := (hplaces i hbefore hafter).symm
        _ = w.referredAt i := (h.referredAt_eq i).symm

/-- Every run of a new wallet whose steps are safe keeps its indexes truthful. -/
theorem indexesTruthful_of_runSafe (hash : Transaction → Hash) (watchOnly auditable : Bool)
    {events : List IndexesEvent} (hrun : (empty watchOnly auditable).RunSafe hash events) :
    IndexesTruthful hash (empty watchOnly auditable) events := by
  have hsound := empty_sound watchOnly auditable
  constructor
  · intro before hbefore
    obtain ⟨after, rfl⟩ := hbefore
    obtain ⟨outs, houts⟩ := hsound.run hash hrun.left
    exact houts.indexesInPlace
  · intro before during hduring c i hheld
    obtain ⟨after, rfl⟩ := hduring
    rw [List.append_assoc] at hrun
    obtain ⟨outs, houts⟩ := hsound.run hash hrun.left
    rw [run_append]
    exact houts.referredAt_run hrun.right.left hheld

/-- A transaction with an HTLC that this wallet may redeem. -/
def sampleHtlcTransaction : Transaction where
  version := 1
  extra := []
  vin := []
  vout := [⟨10, .htlc {
    htlcHash := 2
    flags := 0
    expiration := 20
    pkeyRedeem := 3
    pkeyRefund := 4 }⟩]
  signatures := []
  attachment := []

def sampleHtlcOutput : OwnOutput where
  o := 0
  keyImage := 1
  globalOutputIndex := 7
  isMined := false
  isWalletOwnsRedeem := true

/-- A transaction with an output for a key of this wallet. -/
def sampleLateTransaction : Transaction :=
  { sampleHtlcTransaction with
    version := 2
    vout := [⟨10, .toKey { key := 3, mixAttr := 0 }⟩] }

def sampleLateOutput : OwnOutput :=
  { sampleHtlcOutput with keyImage := 2, globalOutputIndex := 8, isWalletOwnsRedeem := false }

/-- The blocks of both transactions, and a cache that is cleared. -/
def sampleIndexesEvents : List IndexesEvent :=
  [.advance 6 0, .processNewTransaction sampleHtlcTransaction 5 [sampleHtlcOutput], .advance 7 0,
    .processNewTransaction sampleLateTransaction 6 [sampleLateOutput], .clearCache]

/-- The block of the second transfer is detached, the index of the first one stays. -/
theorem indexesTruthful_of_runSafe_sample :
    let hash (tx : Transaction) : Hash := BitVec.ofNat 256 tx.version
    let w := (empty false false).run hash (sampleIndexesEvents ++ [.detachBlockchain 6])
    IndexesTruthful hash (empty false false) (sampleIndexesEvents ++ [.detachBlockchain 6]) ∧
      w.transfers.map IndexedTransfer.keyImage = [1] ∧ w.activeHtlcs (10, 7) = some 0 ∧
      w.keyImages 2 = none := by
  intro hash w
  refine ⟨indexesTruthful_of_runSafe _ _ _ ⟨trivial, trivial, trivial, trivial, trivial, ?_, trivial⟩,
    by decide, by decide, by decide⟩
  have hone : ∀ {κ : Type} [DecidableEq κ] (a k : κ) {i : Nat},
      Function.update (fun _ => none) a (some 0) k = some i → i = 0 := by
    intro κ _ a k i hk
    rw [Function.update_apply] at hk
    split at hk
    · exact (Option.some.inj hk).symm
    · cases hk
  have hheld : ∀ c i, c.cutByDetach = false →
      ((empty false false).run hash sampleIndexesEvents).Holds c i → i = 0 := by
    intro c i hcut hholds
    cases c with
    | keyImages | amountGindexToTransferId | htlcs => cases hcut
    | activeHtlcs =>
        obtain ⟨k, hk⟩ := hholds
        exact hone (10, 7) k hk
    | activeHtlcsTxid =>
        obtain ⟨k, hk⟩ := hholds
        exact hone 1 k hk
    | foundFreeAmounts =>
        obtain ⟨p, hp, _⟩ := hholds
        cases hp
    | moneyExpirations =>
        obtain ⟨e, he, _⟩ := hholds
        cases he
    | unconfirmedTxs =>
        obtain ⟨k, l, hk, _⟩ := hholds
        change Function.update (Function.update (fun _ => none) 1 none) 2 none k = some l at hk
        simp [Function.update_apply] at hk
  intro c i hcut hholds td htd
  rw [hheld c i hcut hholds] at htd
  have hmem : td ∈ [sampleHtlcOutput.transfer sampleHtlcTransaction 5] := htd
  rw [List.mem_singleton.mp hmem]
  decide

/-- The block of the HTLC is detached: its transfer is gone, and `m_active_htlcs` still holds
its index. -/
theorem activeHtlcs_after_detach :
    ¬ ∀ (hash : Transaction → Hash) (watchOnly auditable : Bool) (events : List IndexesEvent),
      IndexesTruthful hash (empty watchOnly auditable) events := by
  intro hclaim
  have htruthful := hclaim (fun _ => 9) false false
    [.advance 6 0, .processNewTransaction sampleHtlcTransaction 5 [sampleHtlcOutput],
      .detachBlockchain 5]
  have hplace := htruthful.1 _ (List.prefix_refl _)
  exact Nat.not_lt_zero 0 (hplace.inRange .activeHtlcs 0 ⟨(10, 7), by decide⟩)

end IndexedWallet

end Chinet
