import Chinet.Lib.Bisection
import Chinet.Wallet.ConstructTx
import Chinet.Wallet.FailedSends

/-!
# Sweeping

`sweep_below` with what it tries: the sources and the destinations of each attempt, the search for
the number of inputs, which keeps the last attempt that was small enough in a copy, and the
transaction that is made of the copy.

The search is what `sweptInputs` is for the results of the attempts (`findMost_run`).  Where an
attempt of `k` inputs is too big exactly above a limit it goes through if the first transfers
exceed the fee for every number that it tries (`sweptInputs_eq`).
-/

namespace Chinet

namespace SendingWallet

/-- What constructing a transaction takes, and the address of the wallet. -/
structure SweepPrimitives extends SendPrimitives where
  construct : ConstructPrimitives
  accountAddress : AccountPublicAddress

structure SweepRequest where
  sortTransfers : TransferSort
  fakeOutsCount : Nat
  destinationAddr : AccountPublicAddress
  thresholdAmount : Nat
  fee : UInt64

/-- The answers that `sweep_below` gets, with the keys that are generated for its transactions. -/
structure SweepAnswers where
  fetchTxGlobalIndixes : Except SendError (Nat → Nat)
  getRandomOutputs : Except SendError (List (List OutEntry))
  /-- The keys of the attempts, by the number of inputs. -/
  attemptKey : Nat → PublicKey × SecretKey
  txKey : PublicKey × SecretKey
  storeUnsignedTx : Except SendError Unit
  sendTransactionToNetwork : Except SendError Unit
  addSentTxDetailedInfo : Recording

/-- What `sweep_below` returns; a watch-only wallet makes no transaction. -/
structure Swept where
  outsTotal : Nat
  amountTotal : UInt64
  outsSwept : Nat
  tx : Option Transaction

namespace Sweep

/-! ## Attempts -/

def sourcesMoney (sources : List TxSourceEntry) : UInt64 :=
  (sources.map fun src => src.amount.toUInt64).sum

/-- `finalize_transaction` of an attempt: nothing is sent, and every exception is caught. -/
def tryFinalize (prims : SweepPrimitives) (made : Except SendError Transaction) :
    SendProcedure TryConstructResult :=
  match made with
  | .error e => do
      Procedure.modify (exceptionHandler · e)
      pure .createTxFailed
  | .ok tx =>
      if prims.getObjectBlobsize tx < currencyMaxTransactionBlobSize then pure .ok
      else do
        Procedure.modify (exceptionHandler · .wallet)
        pure .tooManyOutputs

/-- `try_construct_tx` -/
def tryConstructTx (prims : SweepPrimitives) (r : SweepRequest) (txKey : PublicKey × SecretKey)
    (selectedTransfers : List Nat) (outs : List (List OutEntry)) (stIndexUpperBoundary : Nat)
    (ftp : FinalizeTxParam) : SendProcedure (TryConstructResult × FinalizeTxParam) := do
  let s ← Procedure.gets fun s : SendingWallet => s
  let sources ← called (Sources.sweptSources r.fakeOutsCount s.transfers selectedTransfers outs
    stIndexUpperBoundary)
  let ftp := { ftp with sources }
  if sourcesMoney sources ≤ r.fee then pure (.tooFewOutputs, ftp)
  else do
    let preparedDestinations ← called (prepareTxDestinations prims.accountAddress 0 0
      digitSplitStrategy .default [.ofAddress (sourcesMoney sources - r.fee) r.destinationAddr])
    let ftp := { ftp with preparedDestinations }
    let res ← tryFinalize prims (constructTx prims.construct txKey ftp)
    pure (res, ftp)

/-! ## The search -/

/-- The loop over the bounds.  The result of an attempt is a variable of the loop's own: where an
attempt fails otherwise, the loop ends and the variable outside still says too many outputs. -/
def search (attempt : Nat → FinalizeTxParam → SendProcedure (TryConstructResult × FinalizeTxParam))
    (lowBound highBound : Nat) (ftp ftpOk : FinalizeTxParam) :
    SendProcedure (Option FinalizeTxParam) :=
  if lowBound + 1 ≥ highBound then pure (some ftpOk)
  else do
    let (res, ftp) ← attempt ((lowBound + highBound) / 2) ftp
    match res with
    | .ok => search attempt ((lowBound + highBound) / 2) highBound ftp ftp
    | .tooManyOutputs => search attempt lowBound ((lowBound + highBound) / 2) ftp ftpOk
    | _ => pure none
termination_by highBound - lowBound

/-- From the first attempt to the one that is taken. -/
def findMost (attempt : Nat → FinalizeTxParam → SendProcedure (TryConstructResult × FinalizeTxParam))
    (stIndexUpperBoundary : Nat) : SendProcedure FinalizeTxParam := do
  let (res, ftp) ← attempt stIndexUpperBoundary ⟨[], [], []⟩
  match res with
  | .ok => pure ftp
  | .tooManyOutputs => do
      match ← search attempt 0 stIndexUpperBoundary ftp ftp with
      | some ftp => pure ftp
      | none => throwSendError .wallet
  | _ => throwSendError .wallet

/-! ## `sweep_below` -/

def below (r : SweepRequest) (s : SendingWallet) : List Nat :=
  transfersBelow r.sortTransfers s.toIndexedWallet r.thresholdAmount r.fakeOutsCount

/-- The transfers that random outputs are asked for. -/
def selectedTransfers (r : SweepRequest) (s : SendingWallet) : List Nat :=
  (below r s).take (estimatedMaxInputs r.fakeOutsCount * 2)

/-- The number of inputs of the first attempt. -/
def initialBound (r : SweepRequest) (s : SendingWallet) : Nat :=
  min (selectedTransfers r s).length (estimatedMaxInputs r.fakeOutsCount)

/-- The end of `sweep_below`: the unsigned transaction is stored, or the transaction is sent. -/
def finish (prims : SweepPrimitives) (a : SweepAnswers) (watchOnly : Bool) (ftp : FinalizeTxParam) :
    SendProcedure (Option Transaction) :=
  if watchOnly then do
    storeUnsignedTxAndReserveTransfers a.storeUnsignedTx ftp.selectedTransfers
    pure none
  else do
    markTransfersAsSpent ftp.selectedTransfers
    let tx ← finalizeOrClear prims.toSendPrimitives {
      constructTx := constructTx prims.construct a.txKey ftp
      signMultisigInput := .ok
      sendTransactionToNetwork := a.sendTransactionToNetwork
      addSentTxDetailedInfo := a.addSentTxDetailedInfo } ftp.selectedTransfers true
    pure (some tx)

def sweepBelow (prims : SweepPrimitives) (r : SweepRequest) (a : SweepAnswers) :
    SendProcedure Swept := do
  let s ← Procedure.gets fun s : SendingWallet => s
  require (!(below r s).isEmpty)
  let found ← called a.fetchTxGlobalIndixes
  Procedure.modify (onWallet (prefetchGlobalIndicies (selectedTransfers r s) found))
  let outs ← called (Sources.sweptRandomOutputs r.fakeOutsCount (selectedTransfers r s)
    a.getRandomOutputs)
  let ftp ← findMost (fun k => tryConstructTx prims r (a.attemptKey k) (selectedTransfers r s) outs k)
    (initialBound r s)
  let tx ← finish prims a s.watchOnly
    { ftp with selectedTransfers := ftp.sources.map TxSourceEntry.transferIndex }
  pure {
    outsTotal := (below r s).length
    amountTotal := ((below r s).map fun i => (s.cacheView.amountAt i).toUInt64).sum
    outsSwept := ftp.sources.length
    tx }

/-! ## The results of the attempts -/

/-- The money of the first `k` selected transfers. -/
def sweptMoney (r : SweepRequest) (s : SendingWallet) (k : Nat) : UInt64 :=
  (((selectedTransfers r s).take k).map fun i => (s.cacheView.amountAt i).toUInt64).sum

/-- The parameters that an attempt with `k` inputs leaves. -/
structure IsAttempt (prims : SweepPrimitives) (r : SweepRequest) (s : SendingWallet)
    (transfers : List IndexedTransfer) (outs : List (List OutEntry)) (k : Nat)
    (ftp : FinalizeTxParam) : Prop where
  sources : Sources.sweptSources r.fakeOutsCount transfers (selectedTransfers r s) outs k =
    .ok ftp.sources
  destinations : r.fee < sweptMoney r s k →
    prepareTxDestinations prims.accountAddress 0 0 digitSplitStrategy .default
      [.ofAddress (sweptMoney r s k - r.fee) r.destinationAddr] = .ok ftp.preparedDestinations

/-- The wallet once the indexes of the selected transfers are known. -/
def prefetched (r : SweepRequest) (s : SendingWallet) (found : Nat → Nat) : SendingWallet :=
  s.onWallet (prefetchGlobalIndicies (selectedTransfers r s) found)

/-- A transaction of the first `k` selected transfers that exceed the fee is built, and is small
enough exactly up to the limit; nothing else fails. -/
structure OtherStepsSucceed (prims : SweepPrimitives) (r : SweepRequest) (a : SweepAnswers)
    (s : SendingWallet) (limit : Nat) (found : Nat → Nat) (outs : List (List OutEntry)) : Prop where
  fetched : a.fetchTxGlobalIndixes = .ok found
  answered : Sources.sweptRandomOutputs r.fakeOutsCount (selectedTransfers r s) a.getRandomOutputs =
    .ok outs
  keys : ∀ i ∈ selectedTransfers r s, ∃ td key, s.transfers[i]? = some td ∧ td.sweptKey = .ok key
  built : ∀ k txKey ftp, 1 ≤ k → k ≤ initialBound r s → r.fee < sweptMoney r s k →
    IsAttempt prims r s (prefetched r s found).transfers outs k ftp →
    txKey = a.attemptKey k ∨ txKey = a.txKey →
      ∃ tx, constructTx prims.construct txKey ftp = .ok tx ∧
        (prims.getObjectBlobsize tx < currencyMaxTransactionBlobSize ↔ k ≤ limit)
  stored : a.storeUnsignedTx = .ok ()
  sent : a.sendTransactionToNetwork = .ok ()
  recorded : ∃ change, a.addSentTxDetailedInfo = .done change

/-- How an attempt with `k` inputs ends. -/
def attemptResult (r : SweepRequest) (s : SendingWallet) (limit k : Nat) : TryConstructResult :=
  if sweptMoney r s k ≤ r.fee then .tooFewOutputs
  else if k ≤ limit then .ok
  else .tooManyOutputs

/-- The wallet without its cache of free transfers, which an exception clears. -/
def uncached (s : SendingWallet) : SendingWallet :=
  s.onWallet fun w => { w with foundFreeAmounts := [] }

theorem uncached_exceptionHandler (s : SendingWallet) (e : SendError) :
    uncached (s.exceptionHandler e) = uncached s := by
  cases e <;> rfl

theorem transfers_of_uncached {s t : SendingWallet} (h : uncached t = uncached s) :
    t.transfers = s.transfers := by
  have htransfers : (uncached t).transfers = (uncached s).transfers := by rw [h]
  exact htransfers

theorem books_of_uncached {s t : SendingWallet} (h : uncached t = uncached s) : t.books = s.books := by
  have hbooks : (uncached t).books = (uncached s).books := by rw [h]
  exact hbooks

section

variable {prims : SweepPrimitives} {r : SweepRequest} {a : SweepAnswers} {s t : SendingWallet}
  {limit : Nat} {found : Nat → Nat} {outs : List (List OutEntry)}

theorem details_of_book {td td' : IndexedTransfer} (h : td'.book = td.book) :
    td'.toTransferDetails = td.toTransferDetails := by
  have hdetails : td'.book.toTransferDetails = td.book.toTransferDetails := by rw [h]
  exact hdetails

/-- The details of a transfer but for its index are known from the beginning. -/
theorem details_prefetched {i : Nat} {td : IndexedTransfer}
    (htd : (prefetched r s found).transfers[i]? = some td) :
    ∃ td', s.transfers[i]? = some td' ∧ td'.toTransferDetails = td.toTransferDetails := by
  obtain ⟨td', htd', hbook⟩ := book_of_books (books_prefetch s (selectedTransfers r s) found).symm htd
  exact ⟨td', htd', details_of_book hbook⟩

theorem details_of_prefetched {i : Nat} {td : IndexedTransfer} (htd : s.transfers[i]? = some td) :
    ∃ td', (prefetched r s found).transfers[i]? = some td' ∧
      td'.toTransferDetails = td.toTransferDetails := by
  obtain ⟨td', htd', hbook⟩ := book_of_books (books_prefetch s (selectedTransfers r s) found) htd
  exact ⟨td', htd', details_of_book hbook⟩

theorem sweptKey_congr {td td' : IndexedTransfer} (h : td'.toTransferDetails = td.toTransferDetails) :
    td'.sweptKey = td.sweptKey := by
  unfold IndexedTransfer.sweptKey
  rw [h]

theorem amountAt_of_transfer {i : Nat} {td : IndexedTransfer} (htd : s.transfers[i]? = some td) :
    s.cacheView.amountAt i = td.amount := by
  unfold TransfersWallet.amountAt IndexedWallet.cacheView
  dsimp only
  rw [List.getElem?_map, htd]
  rfl

theorem outs_of_noDecoys (houts : Sources.sweptRandomOutputs r.fakeOutsCount (selectedTransfers r s)
    a.getRandomOutputs = .ok outs) : r.fakeOutsCount = 0 → outs = [] := by
  intro hzero
  rw [Sources.sweptRandomOutputs, if_pos hzero] at houts
  cases houts
  rfl

/-- The sources of an attempt are those of the first selected transfers, with their money. -/
theorem sources_of_attempt (h : OtherStepsSucceed prims r a s limit found outs) {k : Nat}
    {sources : List TxSourceEntry}
    (hsources : Sources.sweptSources r.fakeOutsCount (prefetched r s found).transfers
      (selectedTransfers r s) outs k = .ok sources) :
    List.Forall₂ (fun i src => ∃ td, s.transfers[i]? = some td ∧ src.transferIndex = i ∧
        src.amount = td.amount ∧ src.realOutTxKey = getTxPubKeyFromExtra td.tx.toTransactionPrefix ∧
        src.realOutputInTxIndex = td.internalOutputIndex ∧
        ∃ key index, td.sweptKey = .ok key ∧ src.outputs[src.realOutput]? = some (index, key))
      ((selectedTransfers r s).take k) sources := by
  unfold Sources.sweptSources at hsources
  split at hsources
  · refine (txSources_ok (outs_of_noDecoys h.answered) hsources).imp ?_
    intro i src hsource
    obtain ⟨td, htd, hsource⟩ := hsource
    obtain ⟨td', htd', hdetails⟩ := details_prefetched htd
    obtain ⟨key, hkey, hreal⟩ := hsource.key
    have hamount := hsource.amount
    have htxKey := hsource.realOutTxKey
    have hindex := hsource.realOutputInTxIndex
    rw [← hdetails] at hamount htxKey hindex
    exact ⟨td', htd', hsource.transferIndex, hamount, htxKey, hindex, key, _,
      (sweptKey_congr hdetails).trans hkey, hreal⟩
  · cases hsources

theorem sourcesMoney_of_attempt (h : OtherStepsSucceed prims r a s limit found outs) {k : Nat}
    {sources : List TxSourceEntry}
    (hsources : Sources.sweptSources r.fakeOutsCount (prefetched r s found).transfers
      (selectedTransfers r s) outs k = .ok sources) :
    sourcesMoney sources = sweptMoney r s k ∧
      sources.map TxSourceEntry.transferIndex = (selectedTransfers r s).take k := by
  have hall := sources_of_attempt h hsources
  constructor
  · unfold sourcesMoney sweptMoney
    congr 1
    apply Eq.symm
    apply List.forall₂_eq_eq_eq.le
    rw [List.forall₂_map_left_iff, List.forall₂_map_right_iff]
    refine hall.imp fun i src hsource => ?_
    obtain ⟨td, htd, -, hamount, -⟩ := hsource
    rw [amountAt_of_transfer htd, hamount]
  · apply Eq.symm
    apply List.forall₂_eq_eq_eq.le
    rw [List.forall₂_map_right_iff]
    refine hall.imp fun i src hsource => ?_
    obtain ⟨td, -, hindex, -⟩ := hsource
    exact hindex.symm

/-! ### One attempt -/

theorem sweptMoney_zero : sweptMoney r s 0 = 0 := rfl

theorem rest_ne_zero {k : Nat} (hfee : r.fee < sweptMoney r s k) : sweptMoney r s k - r.fee ≠ 0 := by
  intro hzero
  have hsub := UInt64.toNat_sub_of_le _ _ (UInt64.le_of_lt hfee)
  rw [hzero, UInt64.toNat_zero] at hsub
  rw [UInt64.lt_iff_toNat_lt] at hfee
  omega

theorem called_ok_bind {α β : Type} (x : α) (f : α → SendProcedure β) :
    (called (.ok x) >>= f) t = f x t := rfl

/-- An attempt ends as its number of inputs says, and leaves its parameters. -/
theorem tryConstructTx_run (h : OtherStepsSucceed prims r a s limit found outs)
    (ht : t.transfers = (prefetched r s found).transfers) {k : Nat} (hk : k ≤ initialBound r s)
    (ftp : FinalizeTxParam) :
    ∃ ftp' t', tryConstructTx prims r (a.attemptKey k) (selectedTransfers r s) outs k ftp t =
        (.ok (attemptResult r s limit k, ftp'), t') ∧
      IsAttempt prims r s (prefetched r s found).transfers outs k ftp' ∧ uncached t' = uncached t := by
  have hlength : k ≤ (selectedTransfers r s).length := hk.trans (Nat.min_le_left _ _)
  obtain ⟨sources, hmade⟩ := @txSources_exists r.fakeOutsCount IndexedTransfer.sweptKey
    (prefetched r s found).transfers ((selectedTransfers r s).take k) outs fun i hi => by
      obtain ⟨td, key, htd, hkey⟩ := h.keys i (List.mem_of_mem_take hi)
      obtain ⟨td', htd', hdetails⟩ := details_of_prefetched htd
      exact ⟨td', key, htd', (sweptKey_congr hdetails).trans hkey⟩
  have hsources : Sources.sweptSources r.fakeOutsCount (prefetched r s found).transfers
      (selectedTransfers r s) outs k = .ok sources := by
    rw [Sources.sweptSources, if_pos hlength]
    exact hmade
  have hmoney := (sourcesMoney_of_attempt h hsources).1
  unfold tryConstructTx
  rw [Procedure.gets_bind, ht, hsources, called_ok_bind, hmoney]
  by_cases hfee : sweptMoney r s k ≤ r.fee
  · rw [if_pos hfee, attemptResult, if_pos hfee]
    exact ⟨_, t, rfl, ⟨hsources, fun hmore => absurd hfee (UInt64.not_le.mpr hmore)⟩, rfl⟩
  · have hmore : r.fee < sweptMoney r s k := UInt64.not_le.mp hfee
    have hpos : 1 ≤ k := by
      apply Nat.one_le_iff_ne_zero.mpr
      rintro rfl
      rw [sweptMoney_zero] at hmore
      exact absurd hmore UInt64.not_lt_zero
    obtain ⟨dsts, hdsts, -, -⟩ := prepareTxDestinations_one prims.accountAddress
      (rest_ne_zero hmore) r.destinationAddr
    have hattempt : IsAttempt prims r s (prefetched r s found).transfers outs k
        ⟨sources, dsts, ftp.selectedTransfers⟩ := ⟨hsources, fun _ => hdsts⟩
    obtain ⟨tx, htx, hsize⟩ := h.built k _ _ hpos hk hmore hattempt (Or.inl rfl)
    rw [if_neg hfee, hdsts, called_ok_bind, attemptResult, if_neg hfee]
    dsimp only
    rw [htx]
    by_cases hlimit : k ≤ limit
    · rw [if_pos hlimit, tryFinalize, if_pos (hsize.mpr hlimit)]
      exact ⟨_, t, rfl, hattempt, rfl⟩
    · rw [if_neg hlimit, tryFinalize, if_neg fun hsmall => hlimit (hsize.mp hsmall)]
      exact ⟨_, _, rfl, hattempt, uncached_exceptionHandler t .wallet⟩

end

/-! ## The search and its results -/

/-- Attempts that end as `result` says and leave what they should, whatever was tried before. -/
structure Attempts (attempt : Nat → FinalizeTxParam → SendProcedure (TryConstructResult × FinalizeTxParam))
    (result : Nat → TryConstructResult) (leaves : Nat → FinalizeTxParam → Prop)
    (base : SendingWallet) (bound : Nat) : Prop where
  run : ∀ k ftp t, k ≤ bound → uncached t = uncached base →
    ∃ ftp' t', attempt k ftp t = (.ok (result k, ftp'), t') ∧ leaves k ftp' ∧
      uncached t' = uncached base
  caught : ∀ k e, result k ≠ .thrown e

section

variable {attempt : Nat → FinalizeTxParam → SendProcedure (TryConstructResult × FinalizeTxParam)}
  {result : Nat → TryConstructResult} {leaves : Nat → FinalizeTxParam → Prop}
  {base t : SendingWallet} {bound : Nat}

/-- The loop ends with the parameters of the number of inputs that the bisection finds, or with none
where that fails. -/
theorem search_run (h : Attempts attempt result leaves base bound) {lowBound highBound best : Nat}
    (hbound : highBound ≤ bound) (ftp ftpOk : FinalizeTxParam) (ht : uncached t = uncached base)
    (hbest : leaves best ftpOk) :
    (∀ n, bisectInputs result lowBound highBound best = .ok n →
      ∃ ftp' t', search attempt lowBound highBound ftp ftpOk t = (.ok (some ftp'), t') ∧
        leaves n ftp' ∧ uncached t' = uncached base) ∧
    ∀ e, bisectInputs result lowBound highBound best = .error e →
      ∃ t', search attempt lowBound highBound ftp ftpOk t = (.ok none, t') ∧
        uncached t' = uncached base := by
  induction lowBound, highBound, best using bisectInputs.induct result generalizing ftp ftpOk t with
  | case1 lowBound highBound best hdone =>
      rw [bisectInputs, if_pos hdone, search, if_pos hdone]
      constructor
      · intro n hn
        cases hn
        exact ⟨ftpOk, t, rfl, hbest, ht⟩
      · intro e he
        cases he
  | case2 lowBound highBound best hmore hok ih =>
      obtain ⟨ftp', t', hrun, hleaves, ht'⟩ := h.run ((lowBound + highBound) / 2) ftp t (by omega) ht
      rw [hok] at hrun
      rw [bisectInputs, if_neg hmore, hok, search, if_neg hmore, Procedure.bind_of_ok hrun]
      exact ih hbound ftp' ftp' ht' hleaves
  | case3 lowBound highBound best hmore hmany ih =>
      obtain ⟨ftp', t', hrun, hleaves, ht'⟩ := h.run ((lowBound + highBound) / 2) ftp t (by omega) ht
      rw [hmany] at hrun
      rw [bisectInputs, if_neg hmore, hmany, search, if_neg hmore, Procedure.bind_of_ok hrun]
      exact ih (by omega) ftp' ftpOk ht' hbest
  | case4 lowBound highBound best hmore e hthrown => exact absurd hthrown (h.caught _ e)
  | case5 lowBound highBound best hmore hok hmany hthrown =>
      obtain ⟨ftp', t', hrun, hleaves, ht'⟩ := h.run ((lowBound + highBound) / 2) ftp t (by omega) ht
      rw [bisectInputs, if_neg hmore, search, if_neg hmore, Procedure.bind_of_ok hrun]
      cases hresult : result ((lowBound + highBound) / 2) with
      | ok => exact absurd hresult hok
      | tooManyOutputs => exact absurd hresult hmany
      | thrown e => exact absurd hresult (hthrown e)
      | tooFewOutputs =>
          constructor
          · intro n hn
            cases hn
          · intro e _
            exact ⟨t', rfl, ht'⟩
      | createTxFailed =>
          constructor
          · intro n hn
            cases hn
          · intro e _
            exact ⟨t', rfl, ht'⟩

/-- The whole search finds what `sweptInputs` is for the results. -/
theorem findMost_run (h : Attempts attempt result leaves base bound) (ht : uncached t = uncached base) :
    (∀ n, sweptInputs result bound = .ok n →
      ∃ ftp t', findMost attempt bound t = (.ok ftp, t') ∧ leaves n ftp ∧
        uncached t' = uncached base) ∧
    ∀ e, sweptInputs result bound = .error e →
      ∃ t', findMost attempt bound t = (.error .wallet, t') ∧ uncached t' = uncached base := by
  obtain ⟨ftp, t₁, hrun, hleaves, ht₁⟩ := h.run bound ⟨[], [], []⟩ t (Nat.le_refl _) ht
  unfold findMost sweptInputs
  rw [Procedure.bind_of_ok hrun]
  dsimp only
  cases hresult : result bound with
  | ok =>
      constructor
      · intro n hn
        cases hn
        exact ⟨ftp, t₁, rfl, hleaves, ht₁⟩
      · intro e he
        cases he
  | tooManyOutputs =>
      obtain ⟨hfound, hnone⟩ :=
        @search_run attempt result leaves base t₁ bound h 0 bound bound (Nat.le_refl _) ftp ftp ht₁ hleaves
      constructor
      · intro n hn
        obtain ⟨ftp', t', hsearch, hleaves', ht'⟩ := hfound n hn
        exact ⟨ftp', t', Procedure.bind_of_ok hsearch, hleaves', ht'⟩
      · intro e he
        obtain ⟨t', hsearch, ht'⟩ := hnone e he
        exact ⟨t'.exceptionHandler .wallet, Procedure.bind_of_ok hsearch,
          (uncached_exceptionHandler t' .wallet).trans ht'⟩
  | thrown e => exact absurd hresult (h.caught _ e)
  | tooFewOutputs =>
      constructor
      · intro n hn
        cases hn
      · intro e _
        exact ⟨t₁.exceptionHandler .wallet, rfl, (uncached_exceptionHandler t₁ .wallet).trans ht₁⟩
  | createTxFailed =>
      constructor
      · intro n hn
        cases hn
      · intro e _
        exact ⟨t₁.exceptionHandler .wallet, rfl, (uncached_exceptionHandler t₁ .wallet).trans ht₁⟩

end

/-! ## What the search finds -/

section

variable {r : SweepRequest} {s : SendingWallet} {limit : Nat}

/-- The attempt with `k` inputs is not too small. -/
def Exceeds (r : SweepRequest) (s : SendingWallet) (k : Nat) : Prop := r.fee < sweptMoney r s k

instance (k : Nat) : Decidable (Exceeds r s k) := inferInstanceAs (Decidable (_ < _))

/-- The search does not come upon a number of inputs that does not exceed the fee. -/
def GoesThrough (r : SweepRequest) (s : SendingWallet) (limit : Nat) : Prop :=
  Exceeds r s (initialBound r s) ∧
    (initialBound r s ≤ limit ∨
      ∀ p ∈ Bisection.midpoints limit 0 (initialBound r s), Exceeds r s p)

instance : Decidable (GoesThrough r s limit) := inferInstanceAs (Decidable (_ ∧ _))

/-- What a search that goes through finds: the most that fits, or the first number if not even one
input fits. -/
def mostInputs (r : SweepRequest) (s : SendingWallet) (limit : Nat) : Nat :=
  if limit = 0 ∨ initialBound r s ≤ limit then initialBound r s else limit

theorem attemptResult_few {k : Nat} (h : ¬ Exceeds r s k) :
    attemptResult r s limit k = .tooFewOutputs := by
  rw [attemptResult, if_pos (UInt64.not_lt.mp h)]

theorem attemptResult_ok {k : Nat} (h : Exceeds r s k) (hlimit : k ≤ limit) :
    attemptResult r s limit k = .ok := by
  rw [attemptResult, if_neg (UInt64.not_le.mpr h), if_pos hlimit]

theorem attemptResult_many {k : Nat} (h : Exceeds r s k) (hlimit : ¬ k ≤ limit) :
    attemptResult r s limit k = .tooManyOutputs := by
  rw [attemptResult, if_neg (UInt64.not_le.mpr h), if_neg hlimit]

/-- The bisection finds the limit if all that it tries exceed the fee, and fails otherwise. -/
theorem bisectInputs_eq {lowBound highBound best : Nat} (hlow : lowBound ≤ limit)
    (hhigh : limit < highBound) :
    bisectInputs (attemptResult r s limit) lowBound highBound best =
      if ∀ p ∈ Bisection.midpoints limit lowBound highBound, Exceeds r s p then
        .ok (if limit = lowBound then best else limit)
      else .error .wallet := by
  induction lowBound, highBound using Bisection.midpoints.induct limit generalizing best with
  | case1 lowBound highBound hdone =>
      have hlimit : limit = lowBound := by omega
      rw [bisectInputs, if_pos hdone, Bisection.midpoints_done hdone, if_pos (by simp), if_pos hlimit]
  | case2 lowBound highBound hmore hfits ih =>
      rw [bisectInputs, if_neg hmore, Bisection.midpoints_fits hmore hfits]
      simp only [List.forall_mem_cons]
      by_cases hexceeds : Exceeds r s ((lowBound + highBound) / 2)
      · rw [attemptResult_ok hexceeds hfits]
        dsimp only
        rw [ih hfits hhigh]
        simp only [hexceeds, true_and]
        have hne : ¬ limit = lowBound := by omega
        have hsame : (if limit = (lowBound + highBound) / 2 then (lowBound + highBound) / 2 else limit) =
            limit := by
          split <;> omega
        rw [if_neg hne, hsame]
      · rw [attemptResult_few hexceeds, if_neg fun hall => hexceeds hall.1]
  | case3 lowBound highBound hmore habove ih =>
      rw [bisectInputs, if_neg hmore, Bisection.midpoints_above hmore habove]
      simp only [List.forall_mem_cons]
      by_cases hexceeds : Exceeds r s ((lowBound + highBound) / 2)
      · rw [attemptResult_many hexceeds habove]
        dsimp only
        rw [ih hlow (Nat.lt_of_not_le habove)]
        simp only [hexceeds, true_and]
      · rw [attemptResult_few hexceeds, if_neg fun hall => hexceeds hall.1]

theorem sweptInputs_eq :
    sweptInputs (attemptResult r s limit) (initialBound r s) =
      if GoesThrough r s limit then .ok (mostInputs r s limit) else .error .wallet := by
  unfold sweptInputs
  by_cases hexceeds : Exceeds r s (initialBound r s)
  · by_cases hlimit : initialBound r s ≤ limit
    · rw [attemptResult_ok hexceeds hlimit, if_pos ⟨hexceeds, Or.inl hlimit⟩, mostInputs,
        if_pos (Or.inr hlimit)]
    · rw [attemptResult_many hexceeds hlimit]
      dsimp only
      rw [bisectInputs_eq (Nat.zero_le _) (Nat.lt_of_not_le hlimit)]
      have hiff : GoesThrough r s limit ↔
          ∀ p ∈ Bisection.midpoints limit 0 (initialBound r s), Exceeds r s p := by
        unfold GoesThrough
        simp only [hexceeds, hlimit, false_or, true_and]
      simp only [hiff, mostInputs, hlimit, or_false]
  · rw [attemptResult_few hexceeds, if_neg fun hthrough => hexceeds hthrough.1]

end

end Sweep

end SendingWallet

end Chinet
