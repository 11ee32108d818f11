import Chinet.Wallet.TransferIndexes

/-!
# Blocks and the cache of free amounts

`m_found_free_amounts` is made again when it is needed and is not stored with the wallet.  The
handling of blocks and of the pool adds to it and clears it, but does not read it: what the
other containers become is the same whatever the cache holds.
-/

namespace Chinet

namespace IndexedWallet

/-- The wallet but for the cache. -/
def withoutCache (w : IndexedWallet) : IndexedWallet :=
  { w with foundFreeAmounts := [], fakeOutputsCount := 0 }

/-- The function does not read the cache. -/
def IgnoresCache (f : IndexedWallet → IndexedWallet) : Prop :=
  ∀ w, (f w).withoutCache = (f w.withoutCache).withoutCache

namespace IgnoresCache

variable {f g : IndexedWallet → IndexedWallet}

theorem comp (hg : IgnoresCache g) (hf : IgnoresCache f) : IgnoresCache fun w => g (f w) := by
  intro w
  calc (g (f w)).withoutCache = (g (f w).withoutCache).withoutCache := hg _
    _ = (g (f w.withoutCache).withoutCache).withoutCache := by rw [hf w]
    _ = (g (f w.withoutCache)).withoutCache := (hg _).symm

theorem foldl {ε : Type} {step : IndexedWallet → ε → IndexedWallet} {l : List ε}
    (h : ∀ e ∈ l, IgnoresCache fun w => step w e) : IgnoresCache fun w => l.foldl step w := by
  induction l with
  | nil =>
      intro w
      rfl
  | cons e l ih =>
      have hrest := ih fun e' he' => h e' (List.mem_cons_of_mem e he')
      exact hrest.comp (h e List.mem_cons_self)

/-- When what a step throws does not depend on the cache either, a list is gone through as far. -/
theorem goThrough {ε : Type} {step : IndexedWallet → ε → IndexedWallet × Bool}
    (h : ∀ e, IgnoresCache fun w => (step w e).1)
    (hflag : ∀ w e, (step w.withoutCache e).2 = (step w e).2) {l : List ε} {w w' : IndexedWallet}
    (hsame : w.withoutCache = w'.withoutCache) :
    (goThrough step l w).1.withoutCache = (goThrough step l w').1.withoutCache ∧
      (goThrough step l w).2 = (goThrough step l w').2 := by
  induction l generalizing w w' with
  | nil => exact ⟨hsame, rfl⟩
  | cons e rest ih =>
      have hstep : (step w e).1.withoutCache = (step w' e).1.withoutCache := by
        have hboth := (h e w).trans (hsame ▸ (h e w').symm)
        exact hboth
      have hthrown : (step w e).2 = (step w' e).2 := by
        rw [← hflag w, hsame, hflag]
      rw [Chinet.goThrough, Chinet.goThrough]
      generalize step w e = r at hstep hthrown ⊢
      generalize step w' e = r' at hstep hthrown ⊢
      obtain ⟨v, flag⟩ := r
      obtain ⟨v', flag'⟩ := r'
      change flag = flag' at hthrown
      subst hthrown
      cases flag with
      | true => exact ih hstep
      | false => exact ⟨hstep, rfl⟩

end IgnoresCache

/-! ## Transactions -/

theorem spentTransferId_withoutCache (w : IndexedWallet) (input : TxinToKey) :
    w.withoutCache.spentTransferId input = w.spentTransferId input := by
  have hdirect (offsets : List TxoutRef) : w.withoutCache.directlySpentTransferId input offsets =
      w.directlySpentTransferId input offsets := by
    induction offsets with
    | nil => rfl
    | cons ref rest ih =>
        cases ref <;> simp only [directlySpentTransferId, ih]
        rfl
  simp only [spentTransferId, hdirect]
  rfl

theorem processInput_withoutCache (height : Nat) (w : IndexedWallet) (input : Txin) :
    (processInput height w input).1.withoutCache =
        (processInput height w.withoutCache input).1.withoutCache ∧
      (processInput height w.withoutCache input).2 = (processInput height w input).2 := by
  cases input with
  | toKey input =>
      simp only [processInput, spentTransferId_withoutCache]
      rcases w.spentTransferId input with _ | _ | _ <;> exact ⟨rfl, rfl⟩
  | htlc input =>
      have hsame : w.withoutCache.activeHtlcs = w.activeHtlcs := rfl
      simp only [processInput, hsame]
      cases input.directReference?.bind w.activeHtlcs <;> exact ⟨rfl, rfl⟩
  | gen height => exact ⟨rfl, rfl⟩
  | multisig input => exact ⟨rfl, rfl⟩

theorem recordHtlc_ignoresCache (txHash : Hash) (td : IndexedTransfer) (out : OwnOutput) (i : Nat) :
    IgnoresCache fun w => w.recordHtlc txHash td out i := by
  intro w
  simp only [recordHtlc]
  cases td.htlcExpiration? <;> rfl

theorem recordKeyImage_ignoresCache (keyImage : KeyImage) (i : Nat) :
    IgnoresCache fun w => w.recordKeyImage keyImage i := by
  intro w
  simp only [recordKeyImage]
  split <;> rfl

theorem recordAmountGindex_ignoresCache (td : IndexedTransfer) (i : Nat) :
    IgnoresCache fun w => w.recordAmountGindex td i := by
  intro w
  have hwatchOnly : w.withoutCache.watchOnly = w.watchOnly := rfl
  have hauditable : w.withoutCache.auditable = w.auditable := rfl
  simp only [recordAmountGindex, hwatchOnly, hauditable]
  split <;> rfl

theorem processOutput_ignoresCache (tx : Transaction) (txHash : Hash) (height : Nat)
    (out : OwnOutput) : IgnoresCache fun w => w.processOutput tx txHash height out := by
  intro w
  have hseen : (w.withoutCache.keyImages out.keyImage).isSome = (w.keyImages out.keyImage).isSome :=
    rfl
  simp only [processOutput, hseen]
  split
  · rfl
  · -- the containers are filled one after the other, and only the cache from itself
    have hcache : IgnoresCache fun v : IndexedWallet =>
        { v with
          foundFreeAmounts := insertFreeAmount v.foundFreeAmounts (out.transfer tx height).amountWord
            w.transfers.length } := fun _ => rfl
    have hpush : IgnoresCache fun v : IndexedWallet =>
        { v with transfers := v.transfers ++ [out.transfer tx height] } := fun _ => rfl
    exact (recordAmountGindex_ignoresCache _ _).comp (hcache.comp
      ((recordKeyImage_ignoresCache _ _).comp ((recordHtlc_ignoresCache _ _ _ _).comp hpush))) w

theorem processNewTransaction_ignoresCache (tx : Transaction) (txHash : Hash) (height : Nat)
    (outs : List OwnOutput) :
    IgnoresCache fun w => (w.processNewTransaction tx txHash height outs).1 := by
  intro w
  have houtputs : IgnoresCache fun w : IndexedWallet =>
      outs.foldl (fun w out => w.processOutput tx txHash height out) w :=
    IgnoresCache.foldl fun out _ => processOutput_ignoresCache tx txHash height out
  have hentry : ({ w with unconfirmedTxs := Function.update w.unconfirmedTxs txHash none } :
      IndexedWallet).withoutCache = ({ w.withoutCache with
        unconfirmedTxs := Function.update w.unconfirmedTxs txHash none } :
          IndexedWallet).withoutCache := rfl
  have hboth : (w.processInputs tx txHash height).1.withoutCache =
      (w.withoutCache.processInputs tx txHash height).1.withoutCache ∧
      (w.processInputs tx txHash height).2 = (w.withoutCache.processInputs tx txHash height).2 :=
    IgnoresCache.goThrough (fun input w => (processInput_withoutCache height w input).1)
      (fun w input => (processInput_withoutCache height w input).2) hentry
  obtain ⟨hinputs, hrest⟩ := hboth
  simp only [processNewTransaction]
  generalize w.processInputs tx txHash height = r at hinputs hrest ⊢
  generalize w.withoutCache.processInputs tx txHash height = r' at hinputs hrest ⊢
  obtain ⟨v, rest⟩ := r
  obtain ⟨v', rest'⟩ := r'
  change v.withoutCache = v'.withoutCache at hinputs
  change rest = rest' at hrest
  subst hrest
  cases rest with
  | nil => exact (houtputs v).trans (hinputs ▸ (houtputs v').symm)
  | cons => exact hinputs

/-! ## HTLCs -/

theorem expireHtlcTransfer_ignoresCache (height : Nat) (trigger : HtlcExpirationTrigger) :
    IgnoresCache fun w => w.expireHtlcTransfer height trigger := by
  intro w
  simp only [expireHtlcTransfer]
  cases trigger.isWalletOwnsRedeem <;> rfl

/-- What is done with the key of a transfer ignores the cache when it does for every key. -/
theorem IgnoresCache.onActiveKey {f : (Nat × Nat) × Transaction → IndexedWallet → IndexedWallet}
    (hf : ∀ found, IgnoresCache (f found)) (i : Nat) :
    IgnoresCache fun w => (w.activeKey i).elim w fun found => f found w := by
  intro w
  have hkey : w.withoutCache.activeKey i = w.activeKey i := rfl
  simp only [hkey]
  cases w.activeKey i with
  | none => rfl
  | some found => exact hf found w

def removeActiveHtlc (hash : Transaction → Hash) (found : (Nat × Nat) × Transaction)
    (w : IndexedWallet) : IndexedWallet :=
  if (w.activeHtlcs found.1).isSome then { w with
    activeHtlcs := Function.update w.activeHtlcs found.1 none
    activeHtlcsTxid := Function.update w.activeHtlcsTxid (hash found.2) none }
  else w

theorem deactivateHtlc_eq_elim (hash : Transaction → Hash) (height : Nat) (w : IndexedWallet)
    (trigger : HtlcExpirationTrigger) : deactivateHtlc hash height w trigger =
      ((w.expireHtlcTransfer height trigger).activeKey trigger.transferIndex).elim
        (w.expireHtlcTransfer height trigger) fun found =>
          removeActiveHtlc hash found (w.expireHtlcTransfer height trigger) := by
  rw [deactivateHtlc]
  cases (w.expireHtlcTransfer height trigger).activeKey trigger.transferIndex <;> rfl

theorem deactivateHtlc_ignoresCache (hash : Transaction → Hash) (height : Nat)
    (trigger : HtlcExpirationTrigger) :
    IgnoresCache fun w => deactivateHtlc hash height w trigger := by
  have hremove (found : (Nat × Nat) × Transaction) : IgnoresCache (removeActiveHtlc hash found) := by
    intro w
    have hactive : w.withoutCache.activeHtlcs = w.activeHtlcs := rfl
    simp only [removeActiveHtlc, hactive]
    split <;> rfl
  simp only [deactivateHtlc_eq_elim]
  exact (IgnoresCache.onActiveKey hremove trigger.transferIndex).comp
    (expireHtlcTransfer_ignoresCache height trigger)

theorem unexpireHtlcTransfer_ignoresCache (trigger : HtlcExpirationTrigger) :
    IgnoresCache fun w => w.unexpireHtlcTransfer trigger := by
  intro w
  simp only [unexpireHtlcTransfer]
  cases trigger.isWalletOwnsRedeem <;> rfl

def putActiveHtlc (hash : Transaction → Hash) (i : Nat) (found : (Nat × Nat) × Transaction)
    (w : IndexedWallet) : IndexedWallet :=
  { w with
    activeHtlcs := Function.update w.activeHtlcs found.1 (some i)
    activeHtlcsTxid := Function.update w.activeHtlcsTxid (hash found.2) (some i) }

theorem reactivateHtlc_eq_elim (hash : Transaction → Hash) (w : IndexedWallet)
    (trigger : HtlcExpirationTrigger) : reactivateHtlc hash w trigger =
      ((w.unexpireHtlcTransfer trigger).activeKey trigger.transferIndex).elim
        (w.unexpireHtlcTransfer trigger) fun found =>
          putActiveHtlc hash trigger.transferIndex found (w.unexpireHtlcTransfer trigger) := by
  rw [reactivateHtlc]
  cases (w.unexpireHtlcTransfer trigger).activeKey trigger.transferIndex <;> rfl

theorem reactivateHtlc_ignoresCache (hash : Transaction → Hash) (trigger : HtlcExpirationTrigger) :
    IgnoresCache fun w => reactivateHtlc hash w trigger := by
  have hput (found : (Nat × Nat) × Transaction) :
      IgnoresCache (putActiveHtlc hash trigger.transferIndex found) := fun _ => rfl
  simp only [reactivateHtlc_eq_elim]
  exact (IgnoresCache.onActiveKey hput trigger.transferIndex).comp
    (unexpireHtlcTransfer_ignoresCache trigger)

/-- The triggers of a height are taken from the wallet before the first of them works. -/
theorem forTriggers_ignoresCache {f : IndexedWallet → HtlcExpirationTrigger → IndexedWallet}
    (hf : ∀ trigger, IgnoresCache fun w => f w trigger) (height : Nat) :
    IgnoresCache fun w => (w.expiringHtlcs height).foldl f w := by
  intro w
  have hsame : w.withoutCache.expiringHtlcs height = w.expiringHtlcs height := rfl
  simp only [hsame]
  exact IgnoresCache.foldl (fun trigger _ => hf trigger) w

/-! ## Detaching -/

theorem forgetKeyImage_withoutCache (w : IndexedWallet) (includingHeight i : Nat)
    (td : IndexedTransfer) : w.withoutCache.forgetKeyImage includingHeight i td =
      ((w.forgetKeyImage includingHeight i td).1.withoutCache,
        (w.forgetKeyImage includingHeight i td).2) := by
  have hwatchOnly : w.withoutCache.watchOnly = w.watchOnly := rfl
  have hkeyImages : w.withoutCache.keyImages = w.keyImages := rfl
  by_cases hnull : td.keyImage = nullKi ∧ w.watchOnly
  · simp only [forgetKeyImage, hwatchOnly, if_pos hnull]
    rfl
  · by_cases hthrows : (w.keyImages td.keyImage).isNone ∨ td.blockHeight < includingHeight
    · simp only [forgetKeyImage, hwatchOnly, hkeyImages, if_neg hnull, if_pos hthrows]
    · simp only [forgetKeyImage, hwatchOnly, hkeyImages, if_neg hnull, if_neg hthrows]
      rfl

theorem forgetTransfer_withoutCache (w : IndexedWallet) (includingHeight i : Nat) :
    w.withoutCache.forgetTransfer includingHeight i =
      ((w.forgetTransfer includingHeight i).1.withoutCache,
        (w.forgetTransfer includingHeight i).2) := by
  have htransfers : w.withoutCache.transfers = w.transfers := rfl
  have hhtlcs : w.withoutCache.htlcs = w.htlcs := rfl
  simp only [forgetTransfer, htransfers, hhtlcs]
  cases w.transfers[i]? with
  | none => rfl
  | some td =>
      simp only
      cases td.htlcExpiration? with
      | none => exact forgetKeyImage_withoutCache w includingHeight i td
      | some expirationHeight =>
          simp only
          split
          · exact forgetKeyImage_withoutCache { w with
              htlcs := w.htlcs.eraseP fun e => e.1 = expirationHeight && e.2.transferIndex = i }
              includingHeight i td
          · rfl

theorem forgetTransfers_withoutCache (includingHeight : Nat) (is : List Nat) (w : IndexedWallet) :
    forgetTransfers includingHeight is w.withoutCache =
      ((forgetTransfers includingHeight is w).1.withoutCache,
        (forgetTransfers includingHeight is w).2) := by
  induction is generalizing w with
  | nil => rfl
  | cons i is ih =>
      rw [forgetTransfers, forgetTransfers, forgetTransfer_withoutCache]
      obtain ⟨w', done⟩ := w.forgetTransfer includingHeight i
      cases done with
      | true => exact ih w'
      | false => rfl

theorem detachBlockchain_ignoresCache (hash : Transaction → Hash) (includingHeight : Nat) :
    IgnoresCache fun w => detachBlockchain hash w includingHeight := by
  intro w
  have hcut : w.withoutCache.cutIndex includingHeight = w.cutIndex includingHeight := rfl
  have hlength : w.withoutCache.transfers.length = w.transfers.length := rfl
  simp only [detachBlockchain, hcut, hlength, forgetTransfers_withoutCache]
  obtain ⟨w', done⟩ := forgetTransfers includingHeight
    (List.range' (w.cutIndex includingHeight) (w.transfers.length - w.cutIndex includingHeight)) w
  cases done with
  | false => rfl
  | true =>
      simp only
      have hsize : w'.withoutCache.blockchainCurrentSize = w'.blockchainCurrentSize := rfl
      rw [hsize]
      generalize List.filter _ _ = heights
      have hcutTransfers : IgnoresCache fun v : IndexedWallet =>
          { v with transfers := v.transfers.take (w.cutIndex includingHeight) } := fun _ => rfl
      have hundo : IgnoresCache fun v : IndexedWallet =>
          heights.foldl (unprocessHtlcTriggersOnBlockRemoved hash) v :=
        IgnoresCache.foldl fun height _ =>
          forTriggers_ignoresCache (reactivateHtlc_ignoresCache hash) height
      have hend : IgnoresCache fun v : IndexedWallet => { v with
          blockchainCurrentSize := includingHeight
          transfers := v.transfers.map fun td =>
            if td.spentHeight ≥ includingHeight then { td with spentHeight := 0 } else td } :=
        fun _ => rfl
      exact hend.comp (hundo.comp hcutTransfers) w'

/-! ## The pool and what locks transfers -/

theorem modifyTransfers_ignoresCache (is : List Nat) (change : BitVec 32 → BitVec 32) :
    IgnoresCache fun w => is.foldl (fun w i => w.modifyTransfer i change id) w :=
  IgnoresCache.foldl fun _ _ _ => rfl

theorem addTransfersToExpirationList_ignoresCache (is : List Nat) (expiration : UInt64) :
    IgnoresCache fun w => w.addTransfersToExpirationList is expiration := by
  intro w
  have hexpirations : w.withoutCache.moneyExpirations = w.moneyExpirations := rfl
  simp only [addTransfersToExpirationList, hexpirations]
  split
  · rfl
  · have hentry : IgnoresCache fun v : IndexedWallet => { v with moneyExpirations :=
        v.moneyExpirations ++ [⟨expiration, is.filter fun i =>
          w.moneyExpirations.all fun e => i ∉ e.selectedTransfers⟩] } := fun _ => rfl
    exact (modifyTransfers_ignoresCache _ _).comp hentry w

theorem scanPoolInputs_withoutCache (w : IndexedWallet) (inputs : List Txin) :
    w.withoutCache.scanPoolInputs inputs = w.scanPoolInputs inputs := by
  induction inputs with
  | nil => rfl
  | cons x rest ih =>
      cases x <;> simp only [scanPoolInputs, spentTransferId_withoutCache, ih]

theorem scanPoolTransaction_ignoresCache (hash : Transaction → Hash) (tx : Transaction) :
    IgnoresCache fun w => scanPoolTransaction hash w tx := by
  intro w
  have hknown : w.withoutCache.unconfirmedTxs = w.unconfirmedTxs := rfl
  have hlength : w.withoutCache.transfers.length = w.transfers.length := rfl
  simp only [scanPoolTransaction, hknown, scanPoolInputs_withoutCache, hlength]
  split
  · rfl
  · cases w.scanPoolInputs tx.vin with
    | none => rfl
    | some tids =>
        dsimp only
        generalize tids.filter _ = spendTransfers
        have hsent : IgnoresCache fun v : IndexedWallet =>
            v.addSentUnconfirmedTx (hash tx) spendTransfers := fun _ => rfl
        exact hsent.comp (modifyTransfers_ignoresCache spendTransfers _) w

/-! ## Runs -/

end IndexedWallet

/-- The events that take the money to spend from the cache. -/
def IndexesEvent.ReadsCache : IndexesEvent → Prop
  | .prepareFreeTransfersCache _ | .select .. | .pack .. | .checkAvailableSources ..
  | .failedEscrowProposal .. => True
  | _ => False

namespace IndexedWallet

theorem step_ignoresCache (hash : Transaction → Hash) {e : IndexesEvent} (h : ¬ e.ReadsCache) :
    IgnoresCache fun w => step hash w e := by
  cases e with
  | processNewTransaction tx height outs =>
      exact processNewTransaction_ignoresCache tx (hash tx) height outs
  | blockAdded height =>
      exact forTriggers_ignoresCache (deactivateHtlc_ignoresCache hash height) height
  | detachBlockchain includingHeight => exact detachBlockchain_ignoresCache hash includingHeight
  | scanPoolTransaction tx => exact scanPoolTransaction_ignoresCache hash tx
  | associateKeyImage transferIndex keyImage =>
      intro w
      have hlength : w.withoutCache.transfers.length = w.transfers.length := rfl
      simp only [step, associateKeyImage, hlength]
      split <;> rfl
  | lockTransfers tx expiration =>
      intro w
      have hinputs : w.withoutCache.scanTxToKeyInputs tx = w.scanTxToKeyInputs tx := rfl
      simp only [step, hinputs]
      exact addTransfersToExpirationList_ignoresCache _ expiration w
  | prepareFreeTransfersCache | select | pack | checkAvailableSources | failedEscrowProposal =>
      exact absurd trivial h
  | advance | resetAll | changeFlags | prefetchGlobalIndex | clearCache | forgetUnconfirmed
  | handleExpirationList | submitTransfer => exact fun _ => rfl

/-- A run that sends nothing gives the same wallet but for the cache. -/
theorem run_ignoresCache (hash : Transaction → Hash) {events : List IndexesEvent}
    (h : ∀ e ∈ events, ¬ e.ReadsCache) : IgnoresCache fun w => run hash w events :=
  IgnoresCache.foldl fun e he => step_ignoresCache hash (h e he)

end IndexedWallet

end Chinet
