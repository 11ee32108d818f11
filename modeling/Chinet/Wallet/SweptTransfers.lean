import Mathlib.Data.Nat.Find
import Chinet.Wallet.SweepBelow

/-!
# What a sweep spends

If some number of inputs fits, `sweep_below` spends the most that fit and marks just these, where
its search goes through; otherwise it throws and marks nothing.
-/

namespace Chinet

namespace SendingWallet

namespace Sweep

/-! ## The purpose -/

/-- A transaction with `k` inputs fits: it is not too big and exceeds the fee. -/
def Fits (r : SweepRequest) (s : SendingWallet) (limit k : Nat) : Prop :=
  1 ≤ k ∧ k ≤ initialBound r s ∧ k ≤ limit ∧ Exceeds r s k

/-- An input spends the output of a transfer. -/
def SpendsTransfer (prims : SweepPrimitives) (s : SendingWallet) (i : Nat) (input : Txin) : Prop :=
  ∃ td key img keyOffsets, s.transfers[i]? = some td ∧ td.sweptKey = .ok key ∧
    prims.construct.generateKeyImageHelper (getTxPubKeyFromExtra td.tx.toTransactionPrefix)
      td.internalOutputIndex = some (key, img) ∧
    input = .toKey {
      amount := td.amount.toUInt64
      keyOffsets
      kImage := img
      etcDetails := [] }

/-- The first `k` selected transfers are swept: a transaction that spends just these and pays all
but the fee was sent, and just these became spent. -/
structure IsSwept (prims : SweepPrimitives) (r : SweepRequest) (s s' : SendingWallet) (k : Nat)
    (swept : Swept) : Prop where
  outsSwept : swept.outsSwept = k
  tx : ∃ tx, swept.tx = some tx ∧
    List.Forall₂ (SpendsTransfer prims s) ((selectedTransfers r s).take k) tx.vin ∧
    (tx.vout.map fun out => out.amount.toNat).sum = (sweptMoney r s k).toNat - r.fee.toNat ∧
    s'.accepted = s.accepted ++ [(tx, (selectedTransfers r s).take k)]
  marked : ∀ i, s'.Marked walletTransferDetailFlagSpent i ↔
    s.Marked walletTransferDetailFlagSpent i ∨ i ∈ (selectedTransfers r s).take k

/-- The most that fits is swept, and if nothing fits nothing is marked. -/
def SweepsTheMost (prims : SweepPrimitives) (r : SweepRequest) (a : SweepAnswers) (s : SendingWallet)
    (limit : Nat) : Prop :=
  (∀ k, Fits r s limit k → (∀ k', Fits r s limit k' → k' ≤ k) →
    ∃ swept s', sweepBelow prims r a s = (.ok swept, s') ∧ IsSwept prims r s s' k swept) ∧
  ((∀ k, ¬ Fits r s limit k) →
    ∃ e s', sweepBelow prims r a s = (.error e, s') ∧
      (s'.transfers.map fun td => td.flags) = s.transfers.map fun td => td.flags)

/-- Where something fits the wallet signs and its search goes through; where nothing does, a wallet
that only watches has a search that does not. -/
def SweepsWhen (r : SweepRequest) (s : SendingWallet) (limit : Nat) : Prop :=
  (∃ k, Fits r s limit k) ∧ s.watchOnly = false ∧ GoesThrough r s limit ∨
    (∀ k, ¬ Fits r s limit k) ∧ (s.watchOnly = false ∨ ¬ GoesThrough r s limit)

section

variable {prims : SweepPrimitives} {r : SweepRequest} {a : SweepAnswers} {s t t' : SendingWallet}
  {limit : Nat} {found : Nat → Nat} {outs : List (List OutEntry)}

/-! ## What fits -/

theorem exceeds_pos {k : Nat} (h : Exceeds r s k) : 1 ≤ k := by
  apply Nat.one_le_iff_ne_zero.mpr
  rintro rfl
  exact absurd h UInt64.not_lt_zero

/-- If something fits, a search that goes through finds the most that fits. -/
theorem mostInputs_most (hthrough : GoesThrough r s limit) (hfits : ∃ k, Fits r s limit k) :
    Fits r s limit (mostInputs r s limit) ∧ ∀ k, Fits r s limit k → k ≤ mostInputs r s limit := by
  obtain ⟨hexceeds, hsearch⟩ := hthrough
  obtain ⟨k, hpos, hbound, hlimit, -⟩ := hfits
  unfold mostInputs
  by_cases hall : initialBound r s ≤ limit
  · rw [if_pos (Or.inr hall)]
    exact ⟨⟨hpos.trans hbound, Nat.le_refl _, hall, hexceeds⟩, fun k' hk' => hk'.2.1⟩
  · have hnone : ¬ (limit = 0 ∨ initialBound r s ≤ limit) := by omega
    rw [if_neg hnone]
    have hmem := Bisection.limit_mem (show 0 < limit by omega) (Nat.lt_of_not_le hall)
    exact ⟨⟨by omega, by omega, Nat.le_refl _, hsearch.resolve_left hall limit hmem⟩,
      fun k' hk' => hk'.2.2.1⟩

/-- If nothing fits, a search that goes through ends with a transaction that is too big. -/
theorem mostInputs_tooBig (hthrough : GoesThrough r s limit) (hnone : ∀ k, ¬ Fits r s limit k) :
    Exceeds r s (mostInputs r s limit) ∧ mostInputs r s limit ≤ initialBound r s ∧
      ¬ mostInputs r s limit ≤ limit := by
  obtain ⟨hexceeds, hsearch⟩ := hthrough
  have hbig : ¬ initialBound r s ≤ limit := fun hall =>
    hnone _ ⟨exceeds_pos hexceeds, Nat.le_refl _, hall, hexceeds⟩
  have hzero : limit = 0 := by
    by_contra hpos
    have hlt := Nat.pos_of_ne_zero hpos
    have hmem := Bisection.limit_mem hlt (Nat.lt_of_not_le hbig)
    exact hnone limit ⟨hlt, by omega, Nat.le_refl _, hsearch.resolve_left hbig limit hmem⟩
  rw [mostInputs, if_pos (Or.inl hzero)]
  exact ⟨hexceeds, Nat.le_refl _, hbig⟩

theorem exists_most (hfits : ∃ k, Fits r s limit k) :
    ∃ k, Fits r s limit k ∧ ∀ k', Fits r s limit k' → k' ≤ k := by
  classical
  obtain ⟨k, hk⟩ := hfits
  refine ⟨Nat.findGreatest (Fits r s limit) (initialBound r s), ?_, ?_⟩
  · exact Nat.findGreatest_spec hk.2.1 hk
  · intro k' hk'
    exact Nat.le_findGreatest hk'.2.1 hk'

/-! ## The attempts -/

theorem attempts (h : OtherStepsSucceed prims r a s limit found outs) :
    Attempts (fun k => tryConstructTx prims r (a.attemptKey k) (selectedTransfers r s) outs k)
      (attemptResult r s limit)
      (IsAttempt prims r s (prefetched r s found).transfers outs)
      (prefetched r s found) (initialBound r s) where
  run k ftp t hk ht := by
    obtain ⟨ftp', t', hrun, hleaves, ht'⟩ :=
      tryConstructTx_run h (transfers_of_uncached ht) hk ftp
    exact ⟨ftp', t', hrun, hleaves, ht'.trans ht⟩
  caught k e := by
    unfold attemptResult
    split
    · exact fun hthrown => by cases hthrown
    · split
      · exact fun hthrown => by cases hthrown
      · exact fun hthrown => by cases hthrown

/-! ## Marks -/

theorem flags_of_books (h : t'.books = t.books) :
    (t'.transfers.map fun td => td.flags) = t.transfers.map fun td => td.flags :=
  map_eq_of_books h _ fun _ => rfl

theorem marked_iff_of_books {flag : BitVec 32} {i : Nat} (h : t'.books = t.books) :
    t'.Marked flag i ↔ t.Marked flag i :=
  ⟨Marked.of_books h.symm, Marked.of_books h⟩

theorem markTransfersWithFlag_run {selected : List Nat} {flag : BitVec 32} {throwIfFlagAlreadySet : Bool}
    (hselected : ∀ i ∈ selected, ∃ td, t.transfers[i]? = some td ∧ td.flags &&& flag = 0) :
    markTransfersWithFlag selected flag throwIfFlagAlreadySet t =
      (.ok (), t.onWallet (·.markTransfersWithFlag selected flag)) := by
  have hall : (selected.all fun i => (t.transfers[i]?).any fun td =>
      !throwIfFlagAlreadySet || td.flags &&& flag == 0) = true := by
    rw [List.all_eq_true]
    intro i hi
    obtain ⟨td, htd, hflag⟩ := hselected i hi
    rw [htd, Option.any_some, hflag]
    simp
  unfold markTransfersWithFlag
  rw [Procedure.gets_bind, hall]
  rfl

/-- Flags that others do not touch. -/
theorem or_and_of_and_zero {x y flag : BitVec 32} (h : y &&& flag = 0) :
    (x ||| y) &&& flag = x &&& flag := by
  ext i hi
  have hbit : (y &&& flag)[i] = false := by simp [h]
  rw [BitVec.getElem_and] at hbit
  simp only [BitVec.getElem_and, BitVec.getElem_or]
  cases x[i] <;> simp_all

/-- What marks transfers makes these marked and no others. -/
theorem marked_mark_iff {flag : BitVec 32} (hflag : flag ≠ 0) {selected : List Nat}
    (hselected : ∀ i ∈ selected, i < t.transfers.length) (i : Nat) :
    (t.onWallet (·.markTransfersWithFlag selected flag)).Marked flag i ↔
      t.Marked flag i ∨ i ∈ selected := by
  constructor
  · intro ⟨td, htd, hmarked⟩
    rw [transfers_mark, IndexedWallet.changedFlags_getElem?] at htd
    obtain ⟨td', htd', rfl⟩ := Option.map_eq_some_iff.mp htd
    by_cases hi : i ∈ selected
    · exact Or.inr hi
    · rw [if_neg hi] at hmarked
      exact Or.inl ⟨td', htd', hmarked⟩
  · rintro (hmarked | hi)
    · exact markKept_mark flag flag i selected t hmarked
    · exact marked_mark hflag hi (hselected i hi)

/-- Recording a transaction marks nothing as spent. -/
theorem marked_putEntry_iff {tx : Transaction} {entry : UnconfirmedTx} {money : UnconfirmedMoney}
    (sendPrims : SendPrimitives) (i : Nat) :
    (t.putEntry sendPrims tx entry money true).Marked walletTransferDetailFlagSpent i ↔
      t.Marked walletTransferDetailFlagSpent i := by
  constructor
  · intro ⟨td, htd, hmarked⟩
    obtain ⟨selected, htransfers⟩ := exists_transfers_handleProposal sendPrims.toProposalPrimitives
      (t.toPoolWallet.putUnconfirmed (sendPrims.getTransactionHash tx) entry) tx
    have hput : (t.putEntry sendPrims tx entry money true).transfers = IndexedWallet.changedFlags
        (· ||| walletTransferDetailFlagBlocked ||| walletTransferDetailFlagEscrowProposalReservation)
        selected t.transfers := htransfers
    rw [hput, IndexedWallet.changedFlags_getElem?] at htd
    obtain ⟨td', htd', rfl⟩ := Option.map_eq_some_iff.mp htd
    refine ⟨td', htd', ?_⟩
    by_cases hi : i ∈ selected
    · rw [if_pos hi] at hmarked
      dsimp only at hmarked
      rwa [or_and_of_and_zero (by decide), or_and_of_and_zero (by decide)] at hmarked
    · rwa [if_neg hi] at hmarked
  · exact markKept_putEntry walletTransferDetailFlagSpent i sendPrims tx entry money true t

/-! ## The end -/

/-- A transaction that is small enough is sent and recorded, which marks nothing as spent. -/
theorem finalizeTransaction_run {sendPrims : SendPrimitives} {c : FinalizeCalls} {tx : Transaction}
    {selected : List Nat} {change : List UInt64} (hmade : c.constructTx = .ok tx)
    (hsigned : c.signMultisigInput tx = .ok tx)
    (hsmall : sendPrims.getObjectBlobsize tx < currencyMaxTransactionBlobSize)
    (hsent : c.sendTransactionToNetwork = .ok ()) (hrecorded : c.addSentTxDetailedInfo = .done change) :
    ∃ t', finalizeTransaction sendPrims c selected true t = (.ok tx, t') ∧
      t'.accepted = t.accepted ++ [(tx, selected)] ∧
      ∀ i, t'.Marked walletTransferDetailFlagSpent i ↔ t.Marked walletTransferDetailFlagSpent i := by
  have hrequire : (decide (sendPrims.getObjectBlobsize tx < currencyMaxTransactionBlobSize)) = true :=
    decide_eq_true hsmall
  unfold finalizeTransaction
  rw [hmade, called_ok_bind, hsigned, called_ok_bind, hrequire, if_pos rfl, broadcast, hsent, hrecorded]
  exact ⟨_, rfl, rfl, fun i => marked_putEntry_iff sendPrims i⟩

/-- A transaction that is too big is not sent. -/
theorem finalizeTransaction_tooBig {sendPrims : SendPrimitives} {c : FinalizeCalls} {tx : Transaction}
    {selected : List Nat} (hmade : c.constructTx = .ok tx) (hsigned : c.signMultisigInput tx = .ok tx)
    (hbig : ¬ sendPrims.getObjectBlobsize tx < currencyMaxTransactionBlobSize) :
    finalizeTransaction sendPrims c selected true t =
      (.error .wallet, t.exceptionHandler .wallet) := by
  have hrequire : (decide (sendPrims.getObjectBlobsize tx < currencyMaxTransactionBlobSize)) = false :=
    decide_eq_false hbig
  unfold finalizeTransaction
  rw [hmade, called_ok_bind, hsigned, called_ok_bind, hrequire]
  rfl

variable {n : Nat} {ftp : FinalizeTxParam}

/-- The parameters with which a sweep ends. -/
def withSelected (ftp : FinalizeTxParam) : FinalizeTxParam :=
  { ftp with selectedTransfers := ftp.sources.map TxSourceEntry.transferIndex }

theorem selected_of_attempt (h : OtherStepsSucceed prims r a s limit found outs)
    (hattempt : IsAttempt prims r s (prefetched r s found).transfers outs n ftp) :
    (withSelected ftp).selectedTransfers = (selectedTransfers r s).take n :=
  (sourcesMoney_of_attempt h hattempt.sources).2

theorem books_of_prefetched (ht : uncached t = uncached (prefetched r s found)) : t.books = s.books :=
  (books_of_uncached ht).trans (books_prefetch s (selectedTransfers r s) found)

/-- The transfers that are swept are free. -/
theorem taken_free (ht : uncached t = uncached (prefetched r s found)) {flag : BitVec 32}
    (hflag : IsHold flag) :
    ∀ i ∈ (selectedTransfers r s).take n, ∃ td, t.transfers[i]? = some td ∧ td.flags &&& flag = 0 := by
  intro i hi
  have hbelow := below_spendable (List.mem_of_mem_take (List.mem_of_mem_take hi))
  obtain ⟨td, htd, hspendable⟩ := spendable_of_books (books_of_prefetched ht) hbelow
  refine ⟨td, htd, free_of_spendable ?_ hspendable⟩
  rcases hflag with rfl | rfl <;> decide

/-- What a transaction made from an attempt spends and pays. -/
theorem constructed_spends (h : OtherStepsSucceed prims r a s limit found outs)
    (hexceeds : Exceeds r s n)
    (hattempt : IsAttempt prims r s (prefetched r s found).transfers outs n ftp) {tx : Transaction}
    (hmade : constructTx prims.construct a.txKey (withSelected ftp) = .ok tx) :
    List.Forall₂ (SpendsTransfer prims s) ((selectedTransfers r s).take n) tx.vin ∧
      (tx.vout.map fun out => out.amount.toNat).sum = (sweptMoney r s n).toNat - r.fee.toNat := by
  obtain ⟨hinputs, houts⟩ := constructTx_ok hmade
  constructor
  · have hsources := sources_of_attempt h hattempt.sources
    change List.Forall₂ _ ftp.sources tx.vin at hinputs
    generalize ftp.sources = sources at hsources hinputs
    generalize (selectedTransfers r s).take n = taken at hsources
    generalize tx.vin = vin at hinputs
    induction hsources generalizing vin with
    | nil =>
        cases hinputs
        exact List.Forall₂.nil
    | cons hsource hsources ih =>
        cases hinputs with
        | cons hinput hinputs =>
            refine List.Forall₂.cons ?_ (ih _ hinputs)
            obtain ⟨td, htd, -, hamount, htxKey, hindex, key, index, hkey, hreal⟩ := hsource
            unfold constructInput at hinput
            rw [hreal, htxKey, hindex, hamount] at hinput
            split at hinput
            · rename_i real inEphemeral img hreal' himage
              cases hreal'
              split at hinput
              · cases hinput
              · rename_i hne
                have hsame : inEphemeral = key := not_not.mp hne
                rw [hsame] at himage
                split at hinput
                · cases hinput
                · rename_i keyOffsets _
                  cases hinput
                  exact ⟨td, key, img, keyOffsets, htd, hkey, himage, rfl⟩
            · cases hinput
  · obtain ⟨dsts, hdsts, hmoney, -⟩ := prepareTxDestinations_one prims.accountAddress
      (rest_ne_zero hexceeds) r.destinationAddr
    have hprepared : ftp.preparedDestinations = dsts :=
      Except.ok.inj ((hattempt.destinations hexceeds).symm.trans hdsts)
    calc (tx.vout.map fun out => out.amount.toNat).sum
        = ((tx.vout.map TxOut.amount).map UInt64.toNat).sum := by rw [List.map_map]; rfl
      _ = ((ftp.preparedDestinations.map TxDestinationEntry.amount).map UInt64.toNat).sum := by
          rw [houts]
          rfl
      _ = destinationsMoney dsts := by rw [hprepared, List.map_map]; rfl
      _ = (sweptMoney r s n - r.fee).toNat := hmoney
      _ = (sweptMoney r s n).toNat - r.fee.toNat :=
          UInt64.toNat_sub_of_le _ _ (UInt64.le_of_lt hexceeds)

/-- A transaction that fits is sent, and its transfers are spent. -/
theorem finish_sends (h : OtherStepsSucceed prims r a s limit found outs)
    (ht : uncached t = uncached (prefetched r s found)) (hfits : Fits r s limit n)
    (hattempt : IsAttempt prims r s (prefetched r s found).transfers outs n ftp) :
    ∃ tx t', finish prims a false (withSelected ftp) t = (.ok (some tx), t') ∧
      constructTx prims.construct a.txKey (withSelected ftp) = .ok tx ∧
      t'.accepted = t.accepted ++ [(tx, (selectedTransfers r s).take n)] ∧
      ∀ i, t'.Marked walletTransferDetailFlagSpent i ↔
        t.Marked walletTransferDetailFlagSpent i ∨ i ∈ (selectedTransfers r s).take n := by
  obtain ⟨hpos, hbound, hlimit, hexceeds⟩ := hfits
  obtain ⟨tx, hmade, hsize⟩ := h.built n a.txKey (withSelected ftp) hpos hbound hexceeds
    ⟨hattempt.sources, hattempt.destinations⟩ (Or.inr rfl)
  obtain ⟨change, hrecorded⟩ := h.recorded
  have hfree := @taken_free r s t found n ht walletTransferDetailFlagSpent (Or.inl rfl)
  have hmark := @markTransfersWithFlag_run t _ walletTransferDetailFlagSpent false hfree
  obtain ⟨t', hrun, haccepted, hmarked⟩ := @finalizeTransaction_run
    (t.onWallet (·.markTransfersWithFlag ((selectedTransfers r s).take n)
      walletTransferDetailFlagSpent)) prims.toSendPrimitives {
        constructTx := constructTx prims.construct a.txKey (withSelected ftp)
        signMultisigInput := .ok
        sendTransactionToNetwork := a.sendTransactionToNetwork
        addSentTxDetailedInfo := a.addSentTxDetailedInfo } tx ((selectedTransfers r s).take n) change
    hmade rfl (hsize.mpr hlimit) h.sent hrecorded
  refine ⟨tx, t', ?_, hmade, haccepted, ?_⟩
  · unfold finish markTransfersAsSpent finalizeOrClear
    rw [selected_of_attempt h hattempt, if_neg (by decide), Procedure.bind_of_ok hmark]
    exact Procedure.bind_of_ok (Procedure.onFailure_ok_iff.mpr hrun)
  · intro i
    have hlt : ∀ j ∈ (selectedTransfers r s).take n, j < t.transfers.length := by
      intro j hj
      obtain ⟨td, htd, -⟩ := hfree j hj
      exact (List.getElem?_eq_some_iff.mp htd).1
    rw [hmarked, marked_mark_iff (by decide) hlt]

/-- A transaction that is too big is not sent, and its transfers are freed again. -/
theorem finish_tooBig (h : OtherStepsSucceed prims r a s limit found outs)
    (ht : uncached t = uncached (prefetched r s found)) (hexceeds : Exceeds r s n)
    (hbound : n ≤ initialBound r s) (hbig : ¬ n ≤ limit)
    (hattempt : IsAttempt prims r s (prefetched r s found).transfers outs n ftp) :
    ∃ t', finish prims a false (withSelected ftp) t = (.error .wallet, t') ∧ t'.books = t.books := by
  obtain ⟨tx, hmade, hsize⟩ := h.built n a.txKey (withSelected ftp) (exceeds_pos hexceeds) hbound
    hexceeds ⟨hattempt.sources, hattempt.destinations⟩ (Or.inr rfl)
  have hfree := @taken_free r s t found n ht walletTransferDetailFlagSpent (Or.inl rfl)
  have hmark := @markTransfersWithFlag_run t _ walletTransferDetailFlagSpent false hfree
  have hrun := @finalizeTransaction_tooBig
    (t.onWallet (·.markTransfersWithFlag ((selectedTransfers r s).take n)
      walletTransferDetailFlagSpent)) prims.toSendPrimitives {
        constructTx := constructTx prims.construct a.txKey (withSelected ftp)
        signMultisigInput := .ok
        sendTransactionToNetwork := a.sendTransactionToNetwork
        addSentTxDetailedInfo := a.addSentTxDetailedInfo } tx ((selectedTransfers r s).take n)
    hmade rfl fun hsmall => hbig (hsize.mp hsmall)
  refine ⟨clearTransfersFromFlag ((selectedTransfers r s).take n) walletTransferDetailFlagSpent
    ((t.onWallet (·.markTransfersWithFlag ((selectedTransfers r s).take n)
      walletTransferDetailFlagSpent)).exceptionHandler .wallet), ?_, ?_⟩
  · unfold finish markTransfersAsSpent finalizeOrClear
    rw [selected_of_attempt h hattempt, if_neg (by decide), Procedure.bind_of_ok hmark]
    exact Procedure.bind_of_error (Procedure.onFailure_error_iff.mpr ⟨_, hrun, rfl⟩)
  · apply books_clear_mark
    · intro i hi td htd
      obtain ⟨td', htd', hflag⟩ := hfree i hi
      cases htd.symm.trans htd'
      exact hflag
    · exact books_exceptionHandler _ .wallet

/-- A wallet that only watches stores a transaction, whatever its size. -/
theorem finish_watchOnly (h : OtherStepsSucceed prims r a s limit found outs)
    (ht : uncached t = uncached (prefetched r s found))
    (hattempt : IsAttempt prims r s (prefetched r s found).transfers outs n ftp) :
    ∃ t', finish prims a true (withSelected ftp) t = (.ok none, t') := by
  have hfree := @taken_free r s t found n ht walletTransferDetailFlagColdSigReservation (Or.inr rfl)
  have hmark := @markTransfersWithFlag_run t _ walletTransferDetailFlagColdSigReservation true hfree
  refine ⟨t.onWallet (·.markTransfersWithFlag ((selectedTransfers r s).take n)
    walletTransferDetailFlagColdSigReservation), ?_⟩
  unfold finish storeUnsignedTxAndReserveTransfers
  rw [selected_of_attempt h hattempt, if_pos rfl, h.stored]
  exact Procedure.bind_of_ok ((called_ok_bind () _).trans hmark)

/-! ## The whole run -/

/-- What a sweep does before its search. -/
theorem sweepBelow_start (h : OtherStepsSucceed prims r a s limit found outs)
    (hbelow : (below r s).isEmpty = false) :
    sweepBelow prims r a s = (do
      let ftp ← findMost
        (fun k => tryConstructTx prims r (a.attemptKey k) (selectedTransfers r s) outs k)
        (initialBound r s)
      let tx ← finish prims a s.watchOnly (withSelected ftp)
      pure {
        outsTotal := (below r s).length
        amountTotal := ((below r s).map fun i => (s.cacheView.amountAt i).toUInt64).sum
        outsSwept := ftp.sources.length
        tx : Swept }) (prefetched r s found) := by
  unfold sweepBelow
  rw [Procedure.gets_bind, hbelow, h.fetched, h.answered]
  rfl

/-- A search that does not go through ends with an exception before anything is marked. -/
theorem sweepBelow_stops (h : OtherStepsSucceed prims r a s limit found outs)
    (hnot : ¬ GoesThrough r s limit) :
    ∃ s', sweepBelow prims r a s = (.error .wallet, s') ∧ s'.books = s.books := by
  cases hbelow : (below r s).isEmpty with
  | true =>
      refine ⟨s.exceptionHandler .wallet, ?_, books_exceptionHandler s .wallet⟩
      unfold sweepBelow
      rw [Procedure.gets_bind, hbelow]
      rfl
  | false =>
      have hfails : sweptInputs (attemptResult r s limit) (initialBound r s) = .error .wallet := by
        rw [sweptInputs_eq, if_neg hnot]
      obtain ⟨t, hrun, ht⟩ := (findMost_run (attempts h) rfl).2 _ hfails
      rw [sweepBelow_start h hbelow]
      exact ⟨t, Procedure.bind_of_error hrun, books_of_prefetched ht⟩

/-- A search that goes through leads to the end with what it has found. -/
theorem sweepBelow_goesThrough (h : OtherStepsSucceed prims r a s limit found outs)
    (hthrough : GoesThrough r s limit) :
    ∃ ftp t, uncached t = uncached (prefetched r s found) ∧
      IsAttempt prims r s (prefetched r s found).transfers outs (mostInputs r s limit) ftp ∧
      sweepBelow prims r a s = (do
        let tx ← finish prims a s.watchOnly (withSelected ftp)
        pure {
          outsTotal := (below r s).length
          amountTotal := ((below r s).map fun i => (s.cacheView.amountAt i).toUInt64).sum
          outsSwept := ftp.sources.length
          tx : Swept }) t := by
  have hbelow : (below r s).isEmpty = false := by
    have hpos := exceeds_pos hthrough.1
    cases hlist : below r s with
    | nil =>
        rw [initialBound, selectedTransfers, hlist, List.take_nil, List.length_nil,
          Nat.zero_min] at hpos
        omega
    | cons i rest => rfl
  have hfinds : sweptInputs (attemptResult r s limit) (initialBound r s) =
      .ok (mostInputs r s limit) := by
    rw [sweptInputs_eq, if_pos hthrough]
  obtain ⟨ftp, t, hrun, hattempt, ht⟩ := (findMost_run (attempts h) rfl).1 _ hfinds
  refine ⟨ftp, t, ht, hattempt, ?_⟩
  rw [sweepBelow_start h hbelow]
  exact Procedure.bind_of_ok hrun

theorem sweepBelow_watchOnly (h : OtherStepsSucceed prims r a s limit found outs)
    (hthrough : GoesThrough r s limit) (hwatch : s.watchOnly = true) :
    ∃ swept s', sweepBelow prims r a s = (.ok swept, s') ∧ swept.tx = none := by
  obtain ⟨ftp, t, ht, hattempt, hrun⟩ := sweepBelow_goesThrough h hthrough
  obtain ⟨t', hfinish⟩ := finish_watchOnly h ht hattempt
  rw [hwatch, Procedure.bind_of_ok hfinish] at hrun
  exact ⟨_, t', hrun, rfl⟩

/-- A wallet that signs sweeps the most that fits. -/
theorem sweepBelow_sweeps (h : OtherStepsSucceed prims r a s limit found outs)
    (hthrough : GoesThrough r s limit) (hsigns : s.watchOnly = false)
    (hfits : Fits r s limit (mostInputs r s limit)) :
    ∃ swept s', sweepBelow prims r a s = (.ok swept, s') ∧
      IsSwept prims r s s' (mostInputs r s limit) swept := by
  obtain ⟨ftp, t, ht, hattempt, hrun⟩ := sweepBelow_goesThrough h hthrough
  obtain ⟨tx, t', hfinish, hmade, haccepted, hmarked⟩ := finish_sends h ht hfits hattempt
  rw [hsigns, Procedure.bind_of_ok hfinish] at hrun
  obtain ⟨hspends, hpays⟩ := constructed_spends h hfits.2.2.2 hattempt hmade
  have hbooks := books_of_prefetched ht
  have hsame : t.accepted = s.accepted := congrArg Books.accepted hbooks
  rw [hsame] at haccepted
  refine ⟨_, t', hrun, ?_, ⟨tx, rfl, hspends, hpays, haccepted⟩, ?_⟩
  · have hselected := congrArg List.length (selected_of_attempt h hattempt)
    have hbound : mostInputs r s limit ≤ (selectedTransfers r s).length :=
      hfits.2.1.trans (Nat.min_le_left _ _)
    change (ftp.sources.map TxSourceEntry.transferIndex).length = _ at hselected
    rw [List.length_map, List.length_take, Nat.min_eq_left hbound] at hselected
    exact hselected
  · intro i
    rw [hmarked, marked_iff_of_books hbooks]

/-- If nothing fits, a wallet that signs throws and marks nothing. -/
theorem sweepBelow_tooBig (h : OtherStepsSucceed prims r a s limit found outs)
    (hthrough : GoesThrough r s limit) (hsigns : s.watchOnly = false)
    (hnone : ∀ k, ¬ Fits r s limit k) :
    ∃ s', sweepBelow prims r a s = (.error .wallet, s') ∧ s'.books = s.books := by
  obtain ⟨ftp, t, ht, hattempt, hrun⟩ := sweepBelow_goesThrough h hthrough
  obtain ⟨hexceeds, hbound, hbig⟩ := mostInputs_tooBig hthrough hnone
  obtain ⟨t', hfinish, hbooks⟩ := finish_tooBig h ht hexceeds hbound hbig hattempt
  rw [hsigns, Procedure.bind_of_error hfinish] at hrun
  exact ⟨t', hrun, hbooks.trans (books_of_prefetched ht)⟩

end

/-- Where only the size of a transaction can stand in the way, `sweep_below` sweeps the most that fits
exactly if its search goes through, and, if nothing fits, unless a wallet that only watches stores a
transaction that is too big. -/
theorem sweepsTheMost_iff (prims : SweepPrimitives) (r : SweepRequest) (a : SweepAnswers)
    (s : SendingWallet) (limit : Nat) (found : Nat → Nat) (outs : List (List OutEntry))
    (h : OtherStepsSucceed prims r a s limit found outs) :
    SweepsTheMost prims r a s limit ↔ SweepsWhen r s limit := by
  constructor
  · intro ⟨hmost, hnothing⟩
    by_cases hfits : ∃ k, Fits r s limit k
    · obtain ⟨k, hk, hlargest⟩ := exists_most hfits
      obtain ⟨swept, s', hrun, hswept⟩ := hmost k hk hlargest
      have hthrough : GoesThrough r s limit := by
        by_contra hnot
        obtain ⟨t, hstops, -⟩ := sweepBelow_stops h hnot
        cases hrun.symm.trans hstops
      refine Or.inl ⟨hfits, Bool.eq_false_of_not_eq_true fun hwatch => ?_, hthrough⟩
      obtain ⟨swept', t, hstores, hnone⟩ := sweepBelow_watchOnly h hthrough hwatch
      cases hrun.symm.trans hstores
      obtain ⟨tx, htx, -⟩ := hswept.tx
      cases hnone.symm.trans htx
    · rw [not_exists] at hfits
      refine Or.inr ⟨hfits, ?_⟩
      by_contra hnot
      rw [not_or, not_not, Bool.not_eq_false] at hnot
      obtain ⟨e, s', hrun, -⟩ := hnothing hfits
      obtain ⟨swept, t, hstores, -⟩ := sweepBelow_watchOnly h hnot.2 hnot.1
      cases hrun.symm.trans hstores
  · rintro (⟨hfits, hsigns, hthrough⟩ | ⟨hnone, hwhen⟩)
    · obtain ⟨hmost, hlargest⟩ := mostInputs_most hthrough hfits
      refine ⟨fun k hk hk' => ?_, fun hnone => ?_⟩
      · rw [Nat.le_antisymm (hlargest k hk) (hk' _ hmost)]
        exact sweepBelow_sweeps h hthrough hsigns hmost
      · obtain ⟨k, hk⟩ := hfits
        exact absurd hk (hnone k)
    · refine ⟨fun k hk _ => absurd hk (hnone k), fun _ => ?_⟩
      by_cases hthrough : GoesThrough r s limit
      · obtain ⟨s', hrun, hbooks⟩ :=
          sweepBelow_tooBig h hthrough (hwhen.resolve_right (not_not.mpr hthrough)) hnone
        exact ⟨_, s', hrun, flags_of_books hbooks⟩
      · obtain ⟨s', hrun, hbooks⟩ := sweepBelow_stops h hthrough
        exact ⟨_, s', hrun, flags_of_books hbooks⟩

/-! ## A sweep of three transfers -/

/-- Every output is the wallet's own; a transaction with more than two inputs is too big. -/
def samplePrims : SweepPrimitives where
  toSendPrimitives := { sampleSendPrims with
    getObjectBlobsize := fun tx =>
      if tx.vin.length ≤ 2 then 100 else currencyMaxTransactionBlobSize }
  construct := {
    generateKeyImageHelper := fun _ _ => some (1, 5)
    derivePublicKeyFromTargetAddress := fun _ _ _ => some (1, 0)
    htlcTarget := fun _ _ _ _ => none
    sortOffsets := id
    startTx := fun _ => PoolWallet.sampleTransaction 9 []
    finishTx := fun _ tx => some (tx.extra, tx.attachment, []) }
  accountAddress := ⟨1, 1, 0⟩

def sampleSort : TransferSort where
  sort amountAt := fun xs => xs.mergeSort fun i j => amountAt j ≤ amountAt i
  sorts amountAt :=
    { perm := fun xs => List.mergeSort_perm xs _
      ordered := fun xs => by
        refine (List.pairwise_mergeSort ?_ ?_ xs).imp ?_
        · intro i j k hij hjk
          simp only [decide_eq_true_eq] at hij hjk ⊢
          exact hjk.trans hij
        · intro i j
          simpa using Nat.le_total (amountAt j) (amountAt i)
        · intro i j hij
          simpa using hij }

/-- All transfers below 10 for a fee, without decoys. -/
def sampleRequest (fee : UInt64) : SweepRequest := ⟨sampleSort, 0, ⟨2, 2, 0⟩, 10, fee⟩

def sampleAnswers : SweepAnswers :=
  ⟨.ok fun _ => 7, .ok [], fun _ => (3, 3), (4, 4), .ok (), .ok (), .done []⟩

/-- A wallet with three transfers of 1. -/
def threeTransfers : SendingWallet :=
  (empty false false).onWallet fun w => { w with
    transfers := (List.range 3).map fun i => {
      toTransferDetails := TransfersWallet.sampleTransfer 1
      globalOutputIndex := i
      keyImage := 0
      spentHeight := 0 }
    blockchainCurrentSize := 100 }

theorem selected_sample (fee : UInt64) :
    selectedTransfers (sampleRequest fee) threeTransfers = [0, 1, 2] := by
  have hready : ((List.range 3).filter fun i =>
      decide (threeTransfers.cacheView.amountAt i < 10) && threeTransfers.cacheView.ready 0 i) =
        [0, 1, 2] := by decide +kernel
  have hsorted : [0, 1, 2].Pairwise fun i j =>
      decide (threeTransfers.cacheView.amountAt j ≤ threeTransfers.cacheView.amountAt i) = true := by
    decide +kernel
  change (((List.range 3).filter fun i =>
    decide (threeTransfers.cacheView.amountAt i < 10) && threeTransfers.cacheView.ready 0 i).mergeSort
      fun i j => decide (threeTransfers.cacheView.amountAt j ≤ threeTransfers.cacheView.amountAt i)).take
        (estimatedMaxInputs 0 * 2) = [0, 1, 2]
  rw [hready, List.mergeSort_of_pairwise hsorted]
  decide +kernel

theorem bound_sample (fee : UInt64) : initialBound (sampleRequest fee) threeTransfers = 3 := by
  unfold initialBound
  rw [selected_sample]
  change min 3 (estimatedMaxInputs 0) = 3
  decide +kernel

theorem money_sample (fee : UInt64) {k : Nat} (hk : k ≤ 3) :
    sweptMoney (sampleRequest fee) threeTransfers k = UInt64.ofNat k := by
  unfold sweptMoney
  rw [selected_sample]
  revert k
  decide +kernel

theorem prefetched_sample (fee : UInt64) :
    (prefetched (sampleRequest fee) threeTransfers fun _ => 7).transfers = threeTransfers.transfers := by
  unfold prefetched
  rw [selected_sample]
  rfl

/-- The parameters that the attempts of the sample leave. -/
def sampleParam (fee : UInt64) (k : Nat) : FinalizeTxParam where
  sources := (Sources.sweptSources 0 threeTransfers.transfers [0, 1, 2] [] k).toOption.getD []
  preparedDestinations := (prepareTxDestinations samplePrims.accountAddress 0 0 digitSplitStrategy
    .default [.ofAddress (UInt64.ofNat k - fee) ⟨2, 2, 0⟩]).toOption.getD []
  selectedTransfers := []

/-- The size of a transaction of the sample is as the limit of two inputs says. -/
def sampleMade (fee : UInt64) (k : Nat) (txKey : PublicKey × SecretKey) : Bool :=
  match constructTx samplePrims.construct txKey (sampleParam fee k) with
  | .error _ => false
  | .ok tx => decide (samplePrims.getObjectBlobsize tx < currencyMaxTransactionBlobSize) ==
      decide (k ≤ 2)

theorem sample_succeeds {fee : UInt64}
    (hmade : ∀ k ≤ 3, fee < UInt64.ofNat k →
      sampleMade fee k (3, 3) = true ∧ sampleMade fee k (4, 4) = true) :
    OtherStepsSucceed samplePrims (sampleRequest fee) sampleAnswers threeTransfers 2 (fun _ => 7) [] where
  fetched := rfl
  answered := rfl
  keys i hi := by
    rw [selected_sample] at hi
    have hall : ∀ i ∈ [0, 1, 2], ((threeTransfers.transfers[i]?).any fun td =>
        td.sweptKey.toOption == some 1) = true := by decide +kernel
    obtain ⟨td, htd, hkey⟩ := (Option.any_eq_true _ _).mp (hall i hi)
    refine ⟨td, 1, htd, ?_⟩
    cases hswept : td.sweptKey with
    | error e =>
        rw [hswept] at hkey
        cases hkey
    | ok key =>
        rw [hswept] at hkey
        rw [Option.some.inj (eq_of_beq hkey)]
  built k txKey ftp _ hbound hexceeds hattempt htxKey := by
    rw [bound_sample] at hbound
    have hparam : constructTx samplePrims.construct txKey ftp =
        constructTx samplePrims.construct txKey (sampleParam fee k) := by
      have hsources := hattempt.sources
      have hdestinations := hattempt.destinations hexceeds
      rw [selected_sample, prefetched_sample] at hsources
      rw [money_sample fee hbound] at hdestinations
      have hsources' : (sampleParam fee k).sources = ftp.sources :=
        congrArg (fun x => x.toOption.getD []) hsources
      have hdestinations' : (sampleParam fee k).preparedDestinations = ftp.preparedDestinations :=
        congrArg (fun x => x.toOption.getD []) hdestinations
      unfold constructTx
      rw [hsources', hdestinations']
    have hsize : sampleMade fee k txKey = true := by
      rw [money_sample fee hbound] at hexceeds
      obtain ⟨hattemptKey, hkey⟩ := hmade k hbound hexceeds
      rcases htxKey with rfl | rfl
      · exact hattemptKey
      · exact hkey
    unfold sampleMade at hsize
    rw [hparam]
    cases htx : constructTx samplePrims.construct txKey (sampleParam fee k) with
    | error e =>
        rw [htx] at hsize
        cases hsize
    | ok tx =>
        rw [htx] at hsize
        exact ⟨tx, rfl, decide_eq_decide.mp (eq_of_beq hsize)⟩
  stored := rfl
  sent := rfl
  recorded := ⟨[], rfl⟩

theorem exceeds_sample (fee : UInt64) {k : Nat} (hk : k ≤ 3) :
    Exceeds (sampleRequest fee) threeTransfers k ↔ fee < UInt64.ofNat k := by
  unfold Exceeds
  rw [money_sample fee hk]
  exact Iff.rfl

theorem goesThrough_sample (fee : UInt64) :
    GoesThrough (sampleRequest fee) threeTransfers 2 ↔ fee < 3 ∧ fee < 1 ∧ fee < 2 := by
  have hmidpoints : Bisection.midpoints 2 0 3 = [1, 2] := by decide +kernel
  unfold GoesThrough
  rw [bound_sample, hmidpoints]
  simp only [List.forall_mem_cons, List.not_mem_nil, false_implies, implies_true, and_true,
    exceeds_sample fee (Nat.le_refl 3), exceeds_sample fee (show 1 ≤ 3 by decide),
    exceeds_sample fee (show 2 ≤ 3 by decide), show ¬ 3 ≤ 2 by decide, false_or]
  exact Iff.rfl

theorem fits_sample {fee : UInt64} (hfee : fee < 2) : Fits (sampleRequest fee) threeTransfers 2 2 := by
  refine ⟨by decide, ?_, Nat.le_refl _, (exceeds_sample fee (by decide)).mpr hfee⟩
  rw [bound_sample]
  decide

theorem sweepsTheMost_iff_sample :
    SweepsTheMost samplePrims (sampleRequest 0) sampleAnswers threeTransfers 2 := by
  apply (sweepsTheMost_iff samplePrims (sampleRequest 0) sampleAnswers threeTransfers 2 (fun _ => 7) []
    (sample_succeeds (by decide +kernel))).mpr
  exact Or.inl ⟨⟨2, fits_sample (by decide)⟩, rfl, (goesThrough_sample 0).mpr (by decide)⟩

/-- For a fee of 1 the search stops at its first number, as one transfer does not exceed the fee, and
two, which would fit, are not swept. -/
theorem two_transfers_not_swept :
    OtherStepsSucceed samplePrims (sampleRequest 1) sampleAnswers threeTransfers 2 (fun _ => 7) [] ∧
      ¬ SweepsTheMost samplePrims (sampleRequest 1) sampleAnswers threeTransfers 2 := by
  have hsucceeds := @sample_succeeds 1 (by decide +kernel)
  refine ⟨hsucceeds, fun hsweeps => ?_⟩
  obtain ⟨swept, s', hrun, -⟩ := hsweeps.1 2 (fits_sample (by decide)) fun k hk => hk.2.2.1
  have hnot : ¬ GoesThrough (sampleRequest 1) threeTransfers 2 := by
    rw [goesThrough_sample]
    decide
  obtain ⟨t, hstops, -⟩ := sweepBelow_stops hsucceeds hnot
  cases hrun.symm.trans hstops

end Sweep

end SendingWallet

end Chinet
