import Chinet.Wallet.ReservedTransfers
import Chinet.Wallet.Sending

/-!
# Sends that fail

An operation that throws before the network has taken its transaction leaves the wallet as it
was, where its handler reaches, except that `submit_transfer` frees the transfers of its blob.
The transfers of a transaction that the network has taken stay out of every later selection.
-/

namespace Chinet

/-- A transfer without the global index, which the daemon may tell later. -/
def IndexedTransfer.book (td : IndexedTransfer) : IndexedTransfer := { td with globalOutputIndex := 0 }

namespace IndexedWallet

variable {v v' : IndexedWallet}

/-- Transfers of which some have other flags. -/
def changedFlags (change : BitVec 32 → BitVec 32) (selected : List Nat) (transfers : List IndexedTransfer) :
    List IndexedTransfer :=
  transfers.mapIdx fun i td => if i ∈ selected then { td with flags := change td.flags } else td

theorem changedFlags_getElem? (change : BitVec 32 → BitVec 32) (selected : List Nat)
    (transfers : List IndexedTransfer) (i : Nat) :
    (changedFlags change selected transfers)[i]? = (transfers[i]?).map fun td =>
      if i ∈ selected then { td with flags := change td.flags } else td :=
  List.getElem?_mapIdx

theorem changedFlags_congr {change change' : BitVec 32 → BitVec 32} {selected : List Nat}
    {transfers : List IndexedTransfer} (h : ∀ i ∈ selected, ∀ td, transfers[i]? = some td →
      change td.flags = change' td.flags) :
    changedFlags change selected transfers = changedFlags change' selected transfers := by
  apply List.ext_getElem?
  intro i
  rw [changedFlags_getElem?, changedFlags_getElem?]
  cases htd : transfers[i]? with
  | none => rfl
  | some td =>
      by_cases hi : i ∈ selected
      · simp [hi, h i hi td htd]
      · simp [hi]

theorem changedFlags_book (change : BitVec 32 → BitVec 32) (selected : List Nat)
    (transfers : List IndexedTransfer) :
    (changedFlags change selected transfers).map IndexedTransfer.book =
      changedFlags change selected (transfers.map IndexedTransfer.book) := by
  apply List.ext_getElem?
  intro i
  rw [List.getElem?_map, changedFlags_getElem?, changedFlags_getElem?, List.getElem?_map]
  cases transfers[i]? with
  | none => rfl
  | some td =>
      by_cases hi : i ∈ selected
      · simp [hi, IndexedTransfer.book]
      · simp [hi]

/-- A change of flags that is made for some transfers, one after the other. -/
theorem foldl_modifyTransfer {change : BitVec 32 → BitVec 32}
    (hchange : ∀ flags, change (change flags) = change flags) (selected : List Nat)
    (v : IndexedWallet) :
    selected.foldl (fun v i => v.modifyTransfer i change id) v =
      { v with transfers := changedFlags change selected v.transfers } := by
  induction selected generalizing v with
  | nil =>
      have hsame : changedFlags change [] v.transfers = v.transfers := by
        apply List.ext_getElem?
        simp [changedFlags]
      rw [hsame]
      rfl
  | cons i selected ih =>
      rw [List.foldl_cons, ih]
      unfold modifyTransfer
      dsimp only
      congr 1
      apply List.ext_getElem?
      intro j
      rw [changedFlags_getElem?, changedFlags_getElem?, List.getElem?_modify]
      cases v.transfers[j]? with
      | none => rfl
      | some td =>
          by_cases hij : i = j
          · subst hij
            by_cases hi : i ∈ selected
            · simp [hi, hchange]
            · simp [hi]
          · simp [hij, Ne.symm hij]

theorem markTransfersWithFlag_eq (v : IndexedWallet) (selected : List Nat) (flag : BitVec 32) :
    v.markTransfersWithFlag selected flag =
      { v with transfers := changedFlags (· ||| flag) selected v.transfers } :=
  foldl_modifyTransfer (fun flags => by rw [BitVec.or_assoc, BitVec.or_self]) selected v

theorem clearTransfersFromFlag_eq (v : IndexedWallet) (selected : List Nat) (flag : BitVec 32) :
    v.clearTransfersFromFlag selected flag =
      { v with transfers := changedFlags (· &&& ~~~flag) selected v.transfers } :=
  foldl_modifyTransfer (fun flags => by rw [BitVec.and_assoc, BitVec.and_self]) selected v

/-- A transfer that a selection may take. -/
def Spendable (v : IndexedWallet) (i : Nat) : Prop :=
  ∃ td, v.transfers[i]? = some td ∧ td.isSpendable = true

theorem spendable_of_ready {fakeOutputsCount i : Nat}
    (h : v.cacheView.ready fakeOutputsCount i = true) : v.Spendable i := by
  have hable := TransfersWallet.able_of_ready h
  unfold cacheView at hable
  dsimp only at hable
  rw [List.getElem?_map] at hable
  cases hget : v.transfers[i]? with
  | none => simp [hget] at hable
  | some td =>
      rw [hget] at hable
      exact ⟨td, hget, (Bool.and_eq_true_iff.mp hable).1⟩

theorem selected_spendable {neededMoney : UInt64} {fakeOutputsCount dust i : Nat}
    (hi : i ∈ (v.selectTransfers neededMoney fakeOutputsCount dust).1.selectedIndexes) :
    v.Spendable i :=
  spendable_of_ready ((v.cacheView.selectTransfers_selected neededMoney fakeOutputsCount dust).2 i hi).1

theorem packed_spendable {fakeOutputsCount posMintPackingSize : Nat} {picked : List Nat}
    (hpicked : (v.cacheView.prepareTxSourcesForPacking fakeOutputsCount posMintPackingSize).1 =
      some picked) {i : Nat} (hi : i ∈ picked) : v.Spendable i := by
  unfold TransfersWallet.prepareTxSourcesForPacking at hpicked
  dsimp only at hpicked
  split at hpicked
  · cases hpicked
  · split at hpicked
    · cases hpicked
    · cases hpicked
      have hready := (List.mem_filter.mp (List.mem_of_mem_take hi)).2
      rw [TransfersWallet.prepareFreeTransfersCache_ready] at hready
      exact spendable_of_ready hready

end IndexedWallet

namespace SendingWallet

variable {prims : SendPrimitives} {s s' s'' t : SendingWallet}

/-! ## The books -/

/-- What a failed operation leaves as it is, and what the balance is counted from. -/
structure Books where
  transfers : List IndexedTransfer
  keyImages : KeyImage → Option Nat
  multisigTransfers : Hash → Option MultisigTransfer
  unconfirmedTxs : Hash → Option (List Nat)
  unconfirmedEntries : List (Hash × UnconfirmedTx)
  unconfirmedMoney : Hash → UnconfirmedMoney
  blockchainCurrentSize : Nat
  coreTime : Nat
  accepted : List (Transaction × List Nat)

def books (s : SendingWallet) : Books where
  transfers := s.transfers.map IndexedTransfer.book
  keyImages := s.keyImages
  multisigTransfers := s.multisigTransfers
  unconfirmedTxs := s.unconfirmedTxs
  unconfirmedEntries := s.unconfirmedEntries
  unconfirmedMoney := s.unconfirmedMoney
  blockchainCurrentSize := s.blockchainCurrentSize
  coreTime := s.coreTime
  accepted := s.accepted

/-- The flags, the multisig transfers, the key images, the unconfirmed transactions and the balance
are the same. -/
structure Unchanged (s s' : SendingWallet) : Prop where
  flags : s'.transfers.map (fun td => td.flags) = s.transfers.map fun td => td.flags
  multisigTransfers : s'.multisigTransfers = s.multisigTransfers
  keyImages : s'.keyImages = s.keyImages
  unconfirmedTxs : s'.unconfirmedTxs = s.unconfirmedTxs
  unconfirmedEntries : s'.unconfirmedEntries = s.unconfirmedEntries
  unconfirmedMoney : s'.unconfirmedMoney = s.unconfirmedMoney
  balance : s'.balance = s.balance

theorem map_eq_of_books {α : Type} (h : s'.books = s.books) (g : IndexedTransfer → α)
    (hg : ∀ td, g td.book = g td) : s'.transfers.map g = s.transfers.map g := by
  have hcomp : g ∘ IndexedTransfer.book = g := funext hg
  have hbooks := congrArg (fun b : Books => b.transfers.map g) h
  simpa only [books, List.map_map, hcomp] using hbooks

/-- The money of the transfers that pass a test. -/
theorem money_eq_of_books (h : s'.books = s.books) (p : IndexedTransfer → Bool)
    (hp : ∀ td, p td.book = p td) :
    moneyOf (s'.transfers.filter p) = moneyOf (s.transfers.filter p) := by
  have hsum : ∀ l : List IndexedTransfer,
      moneyOf (l.filter p) = (l.map fun td => if p td then td.amount.toUInt64 else 0).sum := by
    intro l
    induction l with
    | nil => rfl
    | cons td l ih =>
        unfold moneyOf at ih ⊢
        cases htd : p td
        · rw [List.filter_cons_of_neg (by simp [htd]), ih]
          simp [htd]
        · rw [List.filter_cons_of_pos htd, List.map_cons, List.sum_cons, ih]
          simp [htd]
  rw [hsum, hsum, map_eq_of_books h]
  intro td
  simp only [hp]
  rfl

theorem balance_eq_of_books (h : s'.books = s.books) : s'.balance = s.balance := by
  have hentries : s'.unconfirmedEntries = s.unconfirmedEntries :=
    congrArg Books.unconfirmedEntries h
  have hmoney : s'.unconfirmedMoney = s.unconfirmedMoney := congrArg Books.unconfirmedMoney h
  have hsize : s'.blockchainCurrentSize = s.blockchainCurrentSize :=
    congrArg Books.blockchainCurrentSize h
  have htime : s'.coreTime = s.coreTime := congrArg Books.coreTime h
  have hunlocked : isTransferUnlocked s'.cacheView = isTransferUnlocked s.cacheView := by
    funext td
    unfold isTransferUnlocked IndexedWallet.cacheView
    dsimp only
    rw [hsize, htime]
  unfold balance counted
  simp only [hentries, hmoney, hunlocked, List.filter_filter]
  rw [money_eq_of_books h, money_eq_of_books h, money_eq_of_books h] <;> intro td <;> rfl

theorem Unchanged.of_books (h : s'.books = s.books) : Unchanged s s' where
  flags := map_eq_of_books h _ fun _ => rfl
  multisigTransfers := congrArg Books.multisigTransfers h
  keyImages := congrArg Books.keyImages h
  unconfirmedTxs := congrArg Books.unconfirmedTxs h
  unconfirmedEntries := congrArg Books.unconfirmedEntries h
  unconfirmedMoney := congrArg Books.unconfirmedMoney h
  balance := balance_eq_of_books h

theorem book_of_books (h : s'.books = s.books) {i : Nat} {td : IndexedTransfer}
    (htd : s.transfers[i]? = some td) :
    ∃ td', s'.transfers[i]? = some td' ∧ td'.book = td.book := by
  have htransfers := congrArg (fun b : Books => b.transfers[i]?) h
  simp only [books, List.getElem?_map, htd, Option.map_some] at htransfers
  exact Option.map_eq_some_iff.mp htransfers

theorem spendable_of_books (h : s'.books = s.books) {i : Nat}
    (hi : s.toIndexedWallet.Spendable i) : s'.toIndexedWallet.Spendable i := by
  obtain ⟨td, htd, hspendable⟩ := hi
  obtain ⟨td', htd', hbook⟩ := book_of_books h htd
  refine ⟨td', htd', ?_⟩
  have hflags : td'.book.flags = td.book.flags := by rw [hbook]
  change td'.flags = td.flags at hflags
  unfold TransferDetails.isSpendable at hspendable ⊢
  rw [hflags]
  exact hspendable

/-! ### Calls that leave the books alone -/

theorem exists_prefetch (selected : List Nat) (found : Nat → Nat) (w : IndexedWallet) :
    ∃ transfers : List IndexedTransfer,
      transfers.map IndexedTransfer.book = w.transfers.map IndexedTransfer.book ∧
        prefetchGlobalIndicies selected found w = { w with transfers } := by
  unfold prefetchGlobalIndicies
  induction selected generalizing w with
  | nil => exact ⟨w.transfers, rfl, rfl⟩
  | cons i selected ih =>
      rw [List.foldl_cons]
      split
      · obtain ⟨transfers, hmap, hrest⟩ := ih (w.prefetchGlobalIndex i (found i))
        exact ⟨transfers, hmap.trans (IndexedWallet.map_modify_eq fun _ => rfl), hrest⟩
      · exact ih w

theorem books_exceptionHandler (s : SendingWallet) (e : SendError) :
    (s.exceptionHandler e).books = s.books := by
  cases e <;> rfl

theorem keeps_throwSendError {α : Type} (e : SendError) :
    Procedure.Keeps books (throwSendError e : SendProcedure α) :=
  (Procedure.Keeps.modify fun s => books_exceptionHandler s e).bind fun _ => Procedure.Keeps.fail e

theorem keeps_called {α : Type} (r : Except SendError α) : Procedure.Keeps books (called r) := by
  cases r with
  | ok a => exact Procedure.Keeps.pure a
  | error e => exact keeps_throwSendError e

theorem keeps_require (condition : Bool) : Procedure.Keeps books (require condition) := by
  unfold require
  split
  · exact Procedure.Keeps.pure ()
  · exact keeps_throwSendError .wallet

theorem books_prefetch (s : SendingWallet) (selected : List Nat) (found : Nat → Nat) :
    (s.onWallet (prefetchGlobalIndicies selected found)).books = s.books := by
  obtain ⟨transfers, hmap, hfound⟩ := exists_prefetch selected found s.toIndexedWallet
  unfold onWallet
  rw [hfound]
  unfold books
  dsimp only
  rw [hmap]

theorem keeps_prefetch (selected : List Nat) (found : Nat → Nat) :
    Procedure.Keeps books
      (Procedure.modify (onWallet (prefetchGlobalIndicies selected found)) : SendProcedure Unit) :=
  Procedure.Keeps.modify fun s => books_prefetch s selected found

theorem keeps_calledIf (condition : Bool) (answer : Except SendError Unit) :
    Procedure.Keeps books (calledIf condition answer) := by
  unfold calledIf
  split
  · exact keeps_called answer
  · exact Procedure.Keeps.pure ()

theorem keeps_prepareTxSources (c : PrepareCalls) (fakeOutputsCount : Nat) (selected : List Nat) :
    Procedure.Keeps books (prepareTxSources c fakeOutputsCount selected) :=
  (keeps_calledIf _ c.getRandomOutputs).bind fun _ =>
    (keeps_called c.fetchTxGlobalIndixes).bind fun found =>
      (keeps_prefetch selected found).bind fun _ => keeps_called c.makeSources

theorem keeps_selectTransfers (neededMoney : UInt64) (fakeOutputsCount dust : Nat) :
    Procedure.Keeps books (selectTransfers neededMoney fakeOutputsCount dust) := fun _ => rfl

theorem keeps_packTransfers (posMintPackingSize : Nat) :
    Procedure.Keeps books (packTransfers posMintPackingSize) := fun _ => rfl

theorem keeps_selectSources (source : MoneySource) (c : PrepareCalls) (neededMoney : UInt64) :
    Procedure.Keeps books (selectSources source c neededMoney) := by
  cases source with
  | packing posMintPackingSize =>
      apply (keeps_packTransfers posMintPackingSize).bind
      intro picked
      cases picked with
      | none => exact Procedure.Keeps.pure []
      | some selected =>
          exact (keeps_prepareTxSources c 0 selected).bind fun _ => Procedure.Keeps.pure selected
  | htlc => exact (keeps_called c.makeSources).bind fun _ => Procedure.Keeps.pure []
  | multisig => exact (keeps_called c.makeSources).bind fun _ => Procedure.Keeps.pure []
  | regular =>
      apply (keeps_selectTransfers _ _ _).bind
      intro selection
      apply (keeps_require _).bind
      intro _
      exact (keeps_prepareTxSources c _ selection.selectedIndexes).bind fun _ =>
        Procedure.Keeps.pure selection.selectedIndexes

theorem keeps_prepareTransaction (source : MoneySource) (c : PrepareCalls) :
    Procedure.Keeps books (prepareTransaction source c) :=
  (keeps_called c.getNeededMoney).bind fun neededMoney =>
    (keeps_selectSources source c neededMoney).bind fun selected =>
      (keeps_called c.prepareTxDestinations).bind fun _ => Procedure.Keeps.pure selected

/-- A transaction that is not broadcast is only built. -/
theorem keeps_finalizeTransaction (prims : SendPrimitives) (c : FinalizeCalls) (selected : List Nat) :
    Procedure.Keeps books (finalizeTransaction prims c selected false) :=
  (keeps_called c.constructTx).bind fun tx =>
    (keeps_called (c.signMultisigInput tx)).bind fun tx =>
      (keeps_require _).bind fun _ => Procedure.Keeps.pure tx

theorem keeps_buildTransaction (prims : SendPrimitives) (source : MoneySource) (c : BuildCalls) :
    Procedure.Keeps books (buildTransaction prims source c) :=
  (keeps_prepareTransaction source c.prepare).bind fun selected =>
    (keeps_finalizeTransaction prims c.finalize selected).bind fun tx =>
      Procedure.Keeps.pure (selected, tx)

/-! ## Selected transfers -/

theorem selectTransfers_ok {neededMoney : UInt64} {fakeOutputsCount dust : Nat}
    {selection : IndexSelection}
    (h : selectTransfers neededMoney fakeOutputsCount dust s = (.ok selection, s')) :
    ∀ i ∈ selection.selectedIndexes, s'.toIndexedWallet.Spendable i := by
  intro i hi
  have hselection : (s.toIndexedWallet.selectTransfers neededMoney fakeOutputsCount dust).1 =
      selection := Except.ok.inj (congrArg Prod.fst h)
  have hbooks := (keeps_selectTransfers neededMoney fakeOutputsCount dust).eq_of_run h
  apply spendable_of_books hbooks
  rw [← hselection] at hi
  exact IndexedWallet.selected_spendable hi

theorem packTransfers_ok {posMintPackingSize : Nat} {picked : List Nat}
    (h : packTransfers posMintPackingSize s = (.ok (some picked), s')) :
    ∀ i ∈ picked, s'.toIndexedWallet.Spendable i := by
  intro i hi
  have hpicked : (s.cacheView.prepareTxSourcesForPacking 0 posMintPackingSize).1 = some picked :=
    Except.ok.inj (congrArg Prod.fst h)
  have hbooks := (keeps_packTransfers posMintPackingSize).eq_of_run h
  apply spendable_of_books hbooks
  exact IndexedWallet.packed_spendable hpicked hi

theorem selectSources_ok {source : MoneySource} {c : PrepareCalls} {neededMoney : UInt64}
    {selected : List Nat} (h : selectSources source c neededMoney s = (.ok selected, s')) :
    ∀ i ∈ selected, s'.toIndexedWallet.Spendable i := by
  cases source with
  | packing posMintPackingSize =>
      obtain ⟨picked, s₁, hpicked, h⟩ := Procedure.bind_ok_iff.mp h
      cases picked with
      | none =>
          cases h
          exact fun i hi => absurd hi List.not_mem_nil
      | some picked =>
          obtain ⟨_, s₂, hsources, h⟩ := Procedure.bind_ok_iff.mp h
          cases h
          intro i hi
          exact spendable_of_books ((keeps_prepareTxSources c 0 _).eq_of_run hsources)
            (packTransfers_ok hpicked i hi)
  | htlc =>
      obtain ⟨_, s₁, _, h⟩ := Procedure.bind_ok_iff.mp h
      cases h
      exact fun i hi => absurd hi List.not_mem_nil
  | multisig =>
      obtain ⟨_, s₁, _, h⟩ := Procedure.bind_ok_iff.mp h
      cases h
      exact fun i hi => absurd hi List.not_mem_nil
  | regular =>
      obtain ⟨selection, s₁, hselection, h⟩ := Procedure.bind_ok_iff.mp h
      obtain ⟨_, s₂, hrequire, h⟩ := Procedure.bind_ok_iff.mp h
      obtain ⟨_, s₃, hsources, h⟩ := Procedure.bind_ok_iff.mp h
      cases h
      intro i hi
      have hbooks := ((keeps_prepareTxSources c _ _).eq_of_run hsources).trans
        ((keeps_require _).eq_of_run hrequire)
      exact spendable_of_books hbooks (selectTransfers_ok hselection i hi)

/-- What `prepare_transaction` selects is free. -/
theorem prepareTransaction_ok {source : MoneySource} {c : PrepareCalls} {selected : List Nat}
    (h : prepareTransaction source c s = (.ok selected, s')) :
    ∀ i ∈ selected, s'.toIndexedWallet.Spendable i := by
  obtain ⟨neededMoney, s₁, _, h⟩ := Procedure.bind_ok_iff.mp h
  obtain ⟨_, s₂, hsources, h⟩ := Procedure.bind_ok_iff.mp h
  obtain ⟨_, s₃, hdestinations, h⟩ := Procedure.bind_ok_iff.mp h
  cases h
  intro i hi
  exact spendable_of_books ((keeps_called _).eq_of_run hdestinations) (selectSources_ok hsources i hi)

theorem below_spendable {sortTransfers : TransferSort} {w : IndexedWallet}
    {thresholdAmount fakeOutsCount i : Nat}
    (hi : i ∈ transfersBelow sortTransfers w thresholdAmount fakeOutsCount) : w.Spendable i := by
  unfold transfersBelow at hi
  have hready := (List.mem_filter.mp (((sortTransfers.sorts _).perm _).mem_iff.mp hi)).2
  exact IndexedWallet.spendable_of_ready (Bool.and_eq_true_iff.mp hready).2

/-! ## Marks -/

/-- A transfer has one of the flags. -/
def Marked (flag : BitVec 32) (s : SendingWallet) (i : Nat) : Prop :=
  ∃ td, s.transfers[i]? = some td ∧ td.flags &&& flag ≠ 0

theorem Marked.of_books {flag : BitVec 32} {i : Nat} (h : s'.books = s.books)
    (hi : s.Marked flag i) : s'.Marked flag i := by
  obtain ⟨td, htd, hflag⟩ := hi
  obtain ⟨td', htd', hbook⟩ := book_of_books h htd
  have hflags : td'.book.flags = td.book.flags := by rw [hbook]
  exact ⟨td', htd', hflags ▸ hflag⟩

/-- A mark that keeps a transfer out of the selections. -/
def IsHold (flag : BitVec 32) : Prop :=
  flag = walletTransferDetailFlagSpent ∨ flag = walletTransferDetailFlagColdSigReservation

theorem free_of_spendable {flag : BitVec 32} (hflag : (walletTransferDetailFlagSpent |||
      walletTransferDetailFlagBlocked ||| walletTransferDetailFlagEscrowProposalReservation |||
      walletTransferDetailFlagColdSigReservation) &&& flag = flag) {td : TransferDetails}
    (htd : td.isSpendable = true) : td.flags &&& flag = 0 := by
  have hmask := eq_of_beq htd
  calc td.flags &&& flag
      = td.flags &&& (walletTransferDetailFlagSpent ||| walletTransferDetailFlagBlocked |||
          walletTransferDetailFlagEscrowProposalReservation |||
          walletTransferDetailFlagColdSigReservation) &&& flag := by rw [BitVec.and_assoc, hflag]
    _ = 0 := by rw [hmask]; exact BitVec.zero_and

/-- A transfer that is held is not selected. -/
theorem Marked.not_spendable {flag : BitVec 32} (hflag : IsHold flag) {i : Nat}
    (hi : s.Marked flag i) : ¬ s.toIndexedWallet.Spendable i := by
  obtain ⟨td, htd, hmarked⟩ := hi
  intro ⟨td', htd', hspendable⟩
  cases htd.symm.trans htd'
  refine hmarked (free_of_spendable ?_ hspendable)
  rcases hflag with rfl | rfl <;> decide

/-- The transfer keeps its mark. -/
def MarkKept (flag : BitVec 32) (i : Nat) (s s' : SendingWallet) : Prop :=
  s.Marked flag i → s'.Marked flag i

instance (flag : BitVec 32) (i : Nat) : IsPreorder SendingWallet (MarkKept flag i) where
  refl _ h := h
  trans _ _ _ h h' hi := h' (h hi)

theorem follows_of_keeps {α : Type} {x : SendProcedure α} (hx : Procedure.Keeps books x)
    (flag : BitVec 32) (i : Nat) : Procedure.Follows (MarkKept flag i) x :=
  fun s hi => hi.of_books (hx s)

theorem or_ne_zero {x y flag : BitVec 32} (h : x &&& flag ≠ 0) : (x ||| y) &&& flag ≠ 0 := by
  intro hzero
  apply h
  have hand : x &&& flag = x &&& ((x ||| y) &&& flag) := by
    ext i hi
    simp only [BitVec.getElem_and, BitVec.getElem_or]
    cases x[i] <;> simp
  rw [hand, hzero]
  exact BitVec.and_zero

theorem transfers_mark (s : SendingWallet) (selected : List Nat) (mark : BitVec 32) :
    (s.onWallet (·.markTransfersWithFlag selected mark)).transfers =
      IndexedWallet.changedFlags (· ||| mark) selected s.transfers :=
  congrArg IndexedWallet.transfers (IndexedWallet.markTransfersWithFlag_eq _ selected mark)

theorem transfers_clear (s : SendingWallet) (selected : List Nat) (mark : BitVec 32) :
    (clearTransfersFromFlag selected mark s).transfers =
      IndexedWallet.changedFlags (· &&& ~~~mark) selected s.transfers :=
  congrArg IndexedWallet.transfers (IndexedWallet.clearTransfersFromFlag_eq _ selected mark)

theorem markKept_mark (flag mark : BitVec 32) (i : Nat) (selected : List Nat) (s : SendingWallet) :
    MarkKept flag i s (s.onWallet (·.markTransfersWithFlag selected mark)) := by
  intro ⟨td, htd, hflag⟩
  unfold Marked
  rw [transfers_mark, IndexedWallet.changedFlags_getElem?, htd, Option.map_some]
  refine ⟨_, rfl, ?_⟩
  split
  · exact or_ne_zero hflag
  · exact hflag

/-- A transfer that is not among those that are cleared keeps its marks. -/
theorem Marked.clear {flag mark : BitVec 32} {selected : List Nat} {i : Nat} (hi : s.Marked flag i)
    (hselected : i ∉ selected) : (clearTransfersFromFlag selected mark s).Marked flag i := by
  obtain ⟨td, htd, hflag⟩ := hi
  unfold Marked
  rw [transfers_clear, IndexedWallet.changedFlags_getElem?, htd, Option.map_some, if_neg hselected]
  exact ⟨td, rfl, hflag⟩

theorem marked_mark {mark : BitVec 32} (hmark : mark ≠ 0) {selected : List Nat} {i : Nat}
    (hi : i ∈ selected) (hlt : i < s.transfers.length) :
    (s.onWallet (·.markTransfersWithFlag selected mark)).Marked mark i := by
  unfold Marked
  rw [transfers_mark, IndexedWallet.changedFlags_getElem?, List.getElem?_eq_getElem hlt,
    Option.map_some, if_pos hi]
  refine ⟨_, rfl, ?_⟩
  have hand : ∀ flags : BitVec 32, (flags ||| mark) &&& mark = mark := by
    intro flags
    ext j hj
    simp only [BitVec.getElem_and, BitVec.getElem_or]
    cases mark[j] <;> simp
  dsimp only
  rwa [hand]

theorem books_mark (s : SendingWallet) (selected : List Nat) (mark : BitVec 32) :
    (s.onWallet (·.markTransfersWithFlag selected mark)).books =
      { s.books with
        transfers := IndexedWallet.changedFlags (· ||| mark) selected s.books.transfers } := by
  unfold onWallet
  dsimp only
  rw [IndexedWallet.markTransfersWithFlag_eq]
  unfold books
  dsimp only
  rw [IndexedWallet.changedFlags_book]

theorem books_clear (s : SendingWallet) (selected : List Nat) (mark : BitVec 32) :
    (clearTransfersFromFlag selected mark s).books =
      { s.books with
        transfers := IndexedWallet.changedFlags (· &&& ~~~mark) selected s.books.transfers } := by
  unfold clearTransfersFromFlag onWallet
  dsimp only
  rw [IndexedWallet.clearTransfersFromFlag_eq]
  unfold books
  dsimp only
  rw [IndexedWallet.changedFlags_book]

/-- Marks that are put on free transfers and taken off again leave the books as they were. -/
theorem books_clear_mark {mark : BitVec 32} {selected : List Nat}
    (hfree : ∀ i ∈ selected, ∀ td, s.transfers[i]? = some td → td.flags &&& mark = 0)
    (h : t.books = (s.onWallet (·.markTransfersWithFlag selected mark)).books) :
    (clearTransfersFromFlag selected mark t).books = s.books := by
  have hsame : IndexedWallet.changedFlags (· &&& ~~~mark) selected
      (IndexedWallet.changedFlags (· ||| mark) selected s.books.transfers) = s.books.transfers := by
    apply List.ext_getElem?
    intro i
    rw [IndexedWallet.changedFlags_getElem?, IndexedWallet.changedFlags_getElem?]
    cases htd : s.books.transfers[i]? with
    | none => rfl
    | some td =>
        by_cases hi : i ∈ selected
        · have hback : (td.flags ||| mark) &&& ~~~mark = td.flags := by
            obtain ⟨td', htd', hbook⟩ := Option.map_eq_some_iff.mp
              ((List.getElem?_map (f := IndexedTransfer.book)).symm.trans htd)
            have hzero : td.flags &&& mark = 0 := by
              rw [← hbook]
              exact hfree i hi td' htd'
            ext j hj
            have hbit : (td.flags &&& mark)[j] = false := by simp [hzero]
            rw [BitVec.getElem_and] at hbit
            simp only [BitVec.getElem_and, BitVec.getElem_or, BitVec.getElem_not]
            cases hflag : td.flags[j] <;> cases hmark : mark[j] <;> simp_all
          simp [hi, hback]
        · simp [hi]
  rw [books_clear, h, books_mark]
  dsimp only
  rw [hsame]

/-! ## Calls that mark and send -/

theorem markTransfersWithFlag_ok {selected : List Nat} {flag : BitVec 32} {throwIfSet : Bool} {u : Unit}
    (h : markTransfersWithFlag selected flag throwIfSet s = (.ok u, s')) :
    s' = s.onWallet (·.markTransfersWithFlag selected flag) ∧
      ∀ i ∈ selected, i < s.transfers.length := by
  obtain ⟨_, s₁, hgets, h⟩ := Procedure.bind_ok_iff.mp h
  cases hgets
  obtain ⟨_, s₂, hrequire, h⟩ := Procedure.bind_ok_iff.mp h
  unfold require at hrequire
  split at hrequire
  case isTrue hall =>
    cases hrequire
    cases h
    refine ⟨rfl, fun i hi => ?_⟩
    have hany := List.all_eq_true.mp hall i hi
    by_contra hlt
    rw [List.getElem?_eq_none (not_lt.mp hlt)] at hany
    cases hany
  case isFalse => cases hrequire

theorem markTransfersWithFlag_error {selected : List Nat} {flag : BitVec 32} {throwIfSet : Bool}
    {e : SendError} (h : markTransfersWithFlag selected flag throwIfSet s = (.error e, s')) :
    s'.books = s.books := by
  rcases Procedure.bind_error_iff.mp h with h | ⟨_, s₁, hgets, h⟩
  · cases h
  · cases hgets
    rcases (keeps_require _).bind_elim h with h | ⟨_, s₂, _, _, h⟩
    · exact h
    · cases h

theorem follows_markTransfersWithFlag (flag mark : BitVec 32) (i : Nat) (selected : List Nat)
    (throwIfSet : Bool) :
    Procedure.Follows (MarkKept flag i) (markTransfersWithFlag selected mark throwIfSet) :=
  (Procedure.Follows.gets _).bind fun _ =>
    (follows_of_keeps (keeps_require _) flag i).bind fun _ =>
      Procedure.Follows.modify fun s => markKept_mark flag mark i selected s

theorem sendTransactionToNetwork_error {answer : Except SendError Unit} {tx : Transaction}
    {selected : List Nat} {e : SendError}
    (h : sendTransactionToNetwork answer tx selected s = (.error e, s')) : s'.books = s.books := by
  rcases (keeps_called answer).bind_elim h with h | ⟨_, s₁, _, _, h⟩
  · exact h
  · cases h

theorem sendTransactionToNetwork_ok {answer : Except SendError Unit} {tx : Transaction}
    {selected : List Nat} {u : Unit}
    (h : sendTransactionToNetwork answer tx selected s = (.ok u, s')) :
    s' = { s with accepted := s.accepted ++ [(tx, selected)] } := by
  obtain ⟨_, s₁, hcalled, hmodify⟩ := Procedure.bind_ok_iff.mp h
  cases hmodify
  rw [(called_ok hcalled).2]

theorem follows_sendTransactionToNetwork (flag : BitVec 32) (i : Nat) (answer : Except SendError Unit)
    (tx : Transaction) (selected : List Nat) :
    Procedure.Follows (MarkKept flag i) (sendTransactionToNetwork answer tx selected) :=
  (follows_of_keeps (keeps_called answer) flag i).bind fun _ =>
    Procedure.Follows.modify fun _ hi => hi

/-! ### Recording -/

theorem exists_transfers_handleProposal (prims : ProposalPrimitives) (w : PoolWallet) (tx : Transaction) :
    ∃ selected, (PoolWallet.handleProposal prims w tx).transfers =
      IndexedWallet.changedFlags (· ||| walletTransferDetailFlagBlocked |||
        walletTransferDetailFlagEscrowProposalReservation) selected w.transfers := by
  have hidempotent : ∀ flags : BitVec 32, flags ||| walletTransferDetailFlagBlocked |||
      walletTransferDetailFlagEscrowProposalReservation ||| walletTransferDetailFlagBlocked |||
        walletTransferDetailFlagEscrowProposalReservation = flags ||| walletTransferDetailFlagBlocked |||
          walletTransferDetailFlagEscrowProposalReservation := by
    intro flags
    rw [BitVec.or_assoc flags, BitVec.or_assoc, BitVec.or_assoc]
    rfl
  have hnone : w.transfers = IndexedWallet.changedFlags (· ||| walletTransferDetailFlagBlocked |||
      walletTransferDetailFlagEscrowProposalReservation) [] w.transfers := by
    apply List.ext_getElem?
    simp [IndexedWallet.changedFlags]
  unfold PoolWallet.handleProposal
  split
  · exact ⟨[], hnone⟩
  · unfold IndexedWallet.addTransfersToExpirationList
    dsimp only
    split
    · exact ⟨[], hnone⟩
    · rw [IndexedWallet.foldl_modifyTransfer hidempotent]
      exact ⟨_, rfl⟩

theorem markKept_putEntry (flag : BitVec 32) (i : Nat) (prims : SendPrimitives) (tx : Transaction)
    (entry : UnconfirmedTx) (money : UnconfirmedMoney) (proposalHandled : Bool) (s : SendingWallet) :
    MarkKept flag i s (s.putEntry prims tx entry money proposalHandled) := by
  intro ⟨td, htd, hflag⟩
  unfold putEntry
  cases proposalHandled with
  | false => exact ⟨td, htd, hflag⟩
  | true =>
      obtain ⟨selected, htransfers⟩ := exists_transfers_handleProposal prims.toProposalPrimitives
        (s.toPoolWallet.putUnconfirmed (prims.getTransactionHash tx) entry) tx
      unfold Marked
      dsimp only
      rw [if_pos rfl, htransfers, IndexedWallet.changedFlags_getElem?]
      change ∃ td, (s.transfers[i]?).map _ = some td ∧ _
      rw [htd, Option.map_some]
      refine ⟨_, rfl, ?_⟩
      split
      · exact or_ne_zero (or_ne_zero hflag)
      · exact hflag

theorem follows_addSentTxDetailedInfo (flag : BitVec 32) (i : Nat) (prims : SendPrimitives)
    (tx : Transaction) (selected : List Nat) (r : Recording) :
    Procedure.Follows (MarkKept flag i) (addSentTxDetailedInfo prims tx selected r) := by
  cases r with
  | done change =>
      exact Procedure.Follows.modify fun s => markKept_putEntry flag i prims tx _ _ true s
  | thrown entry money proposalHandled e =>
      have hput : Procedure.Follows (MarkKept flag i) (Procedure.modify
          (putEntry prims tx entry money proposalHandled) : SendProcedure Unit) :=
        Procedure.Follows.modify fun s => markKept_putEntry flag i prims tx entry money _ s
      exact hput.bind fun _ => follows_of_keeps (keeps_throwSendError e) flag i

theorem accepted_throwSendError {α : Type} (e : SendError) :
    Procedure.Keeps accepted (throwSendError e : SendProcedure α) :=
  (keeps_throwSendError e).comp Books.accepted

theorem accepted_addSentTxDetailedInfo (prims : SendPrimitives) (tx : Transaction)
    (selected : List Nat) (r : Recording) :
    Procedure.Keeps accepted (addSentTxDetailedInfo prims tx selected r) := by
  cases r with
  | done change => exact Procedure.Keeps.modify fun _ => rfl
  | thrown entry money proposalHandled e =>
      have hput : Procedure.Keeps accepted (Procedure.modify
          (putEntry prims tx entry money proposalHandled) : SendProcedure Unit) :=
        Procedure.Keeps.modify fun _ => rfl
      exact hput.bind fun _ => accepted_throwSendError e

/-! ### Finalizing -/

theorem follows_broadcast (flag : BitVec 32) (i : Nat) (prims : SendPrimitives) (c : FinalizeCalls)
    (tx : Transaction) (selected : List Nat) :
    Procedure.Follows (MarkKept flag i) (broadcast prims c tx selected) :=
  (follows_sendTransactionToNetwork flag i c.sendTransactionToNetwork tx selected).bind fun _ =>
    follows_addSentTxDetailedInfo flag i prims tx selected c.addSentTxDetailedInfo

theorem follows_finalizeTransaction (flag : BitVec 32) (i : Nat) (prims : SendPrimitives)
    (c : FinalizeCalls) (selected : List Nat) (broadcastTx : Bool) :
    Procedure.Follows (MarkKept flag i) (finalizeTransaction prims c selected broadcastTx) := by
  apply (follows_of_keeps (keeps_called c.constructTx) flag i).bind
  intro tx
  apply (follows_of_keeps (keeps_called (c.signMultisigInput tx)) flag i).bind
  intro tx
  apply (follows_of_keeps (keeps_require _) flag i).bind
  intro _
  cases broadcastTx with
  | false => exact (Procedure.Follows.pure ()).bind fun _ => Procedure.Follows.pure tx
  | true => exact (follows_broadcast flag i prims c tx selected).bind fun _ => Procedure.Follows.pure tx

/-- The network takes the transaction, or nothing changes. -/
theorem broadcast_cases {c : FinalizeCalls} {tx : Transaction} {selected : List Nat}
    {r : Except SendError Unit} (h : broadcast prims c tx selected s = (r, s')) :
    s'.books = s.books ∨ s'.accepted = s.accepted ++ [(tx, selected)] := by
  unfold broadcast at h
  rcases hsend : sendTransactionToNetwork c.sendTransactionToNetwork tx selected s with ⟨e | u, t⟩
  · rw [Procedure.bind_of_error hsend] at h
    cases h
    exact Or.inl (sendTransactionToNetwork_error hsend)
  · rw [Procedure.bind_of_ok hsend] at h
    have haccepted := (accepted_addSentTxDetailedInfo prims tx selected _).eq_of_run h
    exact Or.inr (haccepted.trans (congrArg SendingWallet.accepted (sendTransactionToNetwork_ok hsend)))

/-- Either the network has taken the transaction, or nothing has changed. -/
theorem finalizeTransaction_cases {c : FinalizeCalls} {selected : List Nat} {broadcastTx : Bool}
    {r : Except SendError Transaction}
    (h : finalizeTransaction prims c selected broadcastTx s = (r, s')) :
    s'.books = s.books ∨ ∃ tx, s'.accepted = s.accepted ++ [(tx, selected)] := by
  rcases (keeps_called c.constructTx).bind_elim h with hbooks | ⟨tx, s₁, _, hbooks, h⟩
  · exact Or.inl hbooks
  rcases (keeps_called (c.signMultisigInput tx)).bind_elim h with h₂ | ⟨tx, s₂, _, h₂, h⟩
  · exact Or.inl (h₂.trans hbooks)
  rcases (keeps_require _).bind_elim h with h₃ | ⟨_, s₃, _, h₃, h⟩
  · exact Or.inl (h₃.trans (h₂.trans hbooks))
  replace hbooks := h₃.trans (h₂.trans hbooks)
  cases broadcastTx with
  | false =>
      cases h
      exact Or.inl hbooks
  | true =>
      have haccepted : s₃.accepted = s.accepted := congrArg Books.accepted hbooks
      rcases hsent : broadcast prims c tx selected s₃ with ⟨e | u, s₄⟩
      · cases (Procedure.bind_of_error hsent).symm.trans h
        rcases broadcast_cases hsent with h₄ | h₄
        · exact Or.inl (h₄.trans hbooks)
        · exact Or.inr ⟨tx, haccepted ▸ h₄⟩
      · cases (Procedure.bind_of_ok hsent).symm.trans h
        rcases broadcast_cases hsent with h₄ | h₄
        · exact Or.inl (h₄.trans hbooks)
        · exact Or.inr ⟨tx, haccepted ▸ h₄⟩

/-- The end of an operation throws: the transfers are as free as they were, unless the network has
taken the transaction. -/
theorem spendAndFinalize_error {c : FinalizeCalls} {selected : List Nat} {broadcastTx : Bool}
    {e : SendError} (hselected : ∀ i ∈ selected, s.toIndexedWallet.Spendable i)
    (h : spendAndFinalize prims c selected broadcastTx s = (.error e, s'))
    (haccepted : s'.accepted = s.accepted) : s'.books = s.books := by
  rcases Procedure.bind_error_iff.mp h with h | ⟨_, s₁, hmark, h⟩
  · exact markTransfersWithFlag_error h
  obtain ⟨rfl, _⟩ := markTransfersWithFlag_ok hmark
  rcases Procedure.bind_error_iff.mp h with h | ⟨_, s₂, _, h⟩
  · obtain ⟨t, hfinalize, rfl⟩ := Procedure.onFailure_error_iff.mp h
    rcases finalizeTransaction_cases hfinalize with hbooks | ⟨tx, hsent⟩
    · refine books_clear_mark (fun i hi td htd => ?_) hbooks
      obtain ⟨td', htd', hspendable⟩ := hselected i hi
      cases htd.symm.trans htd'
      exact free_of_spendable (by decide) hspendable
    · exact absurd (hsent.symm.trans haccepted) (by simp [onWallet])
  · cases h

/-- A transfer that is not selected keeps its marks to the end of an operation. -/
theorem follows_spendAndFinalize (flag : BitVec 32) {i : Nat} {selected : List Nat} (hi : i ∉ selected)
    (prims : SendPrimitives) (c : FinalizeCalls) (broadcastTx : Bool) :
    Procedure.Follows (MarkKept flag i) (spendAndFinalize prims c selected broadcastTx) := by
  apply (follows_markTransfersWithFlag flag walletTransferDetailFlagSpent i selected false).bind
  intro _
  have hclear : ∀ s, MarkKept flag i s
      (clearTransfersFromFlag selected walletTransferDetailFlagSpent s) := fun s hs => hs.clear hi
  have hfinalize := (follows_finalizeTransaction flag i prims c selected broadcastTx).onFailure hclear
  exact hfinalize.bind fun _ => Procedure.Follows.pure ()

/-- An operation that ends well has marked what it has selected. -/
theorem spendAndFinalize_ok {c : FinalizeCalls} {selected : List Nat} {broadcastTx : Bool} {u : Unit}
    (h : spendAndFinalize prims c selected broadcastTx s = (.ok u, s')) :
    (s'.accepted = s.accepted ∨ ∃ tx, s'.accepted = s.accepted ++ [(tx, selected)]) ∧
      ∀ i ∈ selected, s'.Marked walletTransferDetailFlagSpent i := by
  obtain ⟨_, s₁, hmark, h⟩ := Procedure.bind_ok_iff.mp h
  obtain ⟨rfl, hlt⟩ := markTransfersWithFlag_ok hmark
  obtain ⟨tx, s₂, hfinalize, h⟩ := Procedure.bind_ok_iff.mp h
  cases h
  have hrun := Procedure.onFailure_ok_iff.mp hfinalize
  constructor
  · rcases finalizeTransaction_cases hrun with hbooks | hsent
    · exact Or.inl (congrArg Books.accepted hbooks)
    · exact Or.inr hsent
  · intro i hi
    have hkept := (follows_finalizeTransaction walletTransferDetailFlagSpent i prims c selected
      broadcastTx).rel_of_run hrun
    exact hkept (marked_mark (by decide) hi (hlt i hi))

/-! ## Operations that fail -/

/-- Where the network has not taken a transaction, an exception leaves the books as they were. -/
def Undoes (x : SendProcedure Unit) (s : SendingWallet) : Prop :=
  ∀ e s', x s = (.error e, s') → s'.accepted = s.accepted → s'.books = s.books

theorem Undoes.of_keeps {x : SendProcedure Unit} (hx : Procedure.Keeps books x) : Undoes x s :=
  fun _ _ h _ => hx.eq_of_run h

/-- A sequence that begins with what leaves the books alone. -/
theorem Undoes.bind {α : Type} {x : SendProcedure α} {f : α → SendProcedure Unit}
    (hx : Procedure.Keeps books x)
    (hf : ∀ a t, x s = (.ok a, t) → t.books = s.books → Undoes (f a) t) : Undoes (x >>= f) s := by
  intro e s' h haccepted
  rcases hx.bind_elim h with hbooks | ⟨a, t, hrun, hbooks, h⟩
  · exact hbooks
  · have hsame : t.accepted = s.accepted := congrArg Books.accepted hbooks
    exact (hf a t hrun hbooks e s' h (haccepted.trans hsame.symm)).trans hbooks

theorem undoes_require_bind {condition : Bool} {f : Unit → SendProcedure Unit}
    (hf : condition = true → Undoes (f ()) s) : Undoes (require condition >>= f) s := by
  unfold require
  split
  case isTrue h => exact hf h
  case isFalse =>
    exact Undoes.bind (keeps_throwSendError .wallet) fun _ _ hrun _ => by cases hrun

theorem undoes_spendAndFinalize {c : FinalizeCalls} {selected : List Nat} {broadcastTx : Bool}
    (hselected : ∀ i ∈ selected, s.toIndexedWallet.Spendable i) :
    Undoes (spendAndFinalize prims c selected broadcastTx) s :=
  fun _ _ h haccepted => spendAndFinalize_error hselected h haccepted

theorem undoes_storeUnsignedTx (stored : Except SendError Unit) (selected : List Nat) :
    Undoes (storeUnsignedTxAndReserveTransfers stored selected) s :=
  Undoes.bind (keeps_called stored) fun _ _ _ _ _ _ h _ => markTransfersWithFlag_error h

/-- What four operations end with. -/
theorem undoes_prepareAndSpend (source : MoneySource) (pc : PrepareCalls) (c : FinalizeCalls) :
    Undoes (do
      let selectedTransfers ← prepareTransaction source pc
      spendAndFinalize prims c selectedTransfers true) s :=
  Undoes.bind (keeps_prepareTransaction source pc) fun _ _ hrun _ =>
    undoes_spendAndFinalize (prepareTransaction_ok hrun)

theorem undoes_transfer (c : TransferCalls) : Undoes (transfer prims c) s := by
  apply Undoes.bind (Procedure.Keeps.gets _)
  intro w s₁ _ _
  apply undoes_require_bind
  intro _
  apply Undoes.bind (keeps_called _)
  intro _ s₂ _ _
  apply Undoes.bind (keeps_prepareTransaction _ _)
  intro selected s₃ hrun _
  cases w.watchOnly with
  | true => exact undoes_storeUnsignedTx c.storeUnsignedTx selected
  | false => exact undoes_spendAndFinalize (prepareTransaction_ok hrun)

theorem undoes_sweepBelow (c : SweepCalls) : Undoes (sweepBelow prims c) s := by
  apply Undoes.bind (Procedure.Keeps.gets _)
  intro w s₁ hw _
  cases hw
  apply undoes_require_bind
  intro _
  apply Undoes.bind (keeps_called _)
  intro found s₂ _ h₂
  apply Undoes.bind (keeps_prefetch _ _)
  intro _ s₃ _ h₃
  apply Undoes.bind (keeps_calledIf _ _)
  intro _ s₄ _ h₄
  apply Undoes.bind (keeps_called _)
  intro inputs s₅ _ h₅
  cases s.watchOnly with
  | true => exact undoes_storeUnsignedTx c.storeUnsignedTx _
  | false =>
      apply undoes_spendAndFinalize
      intro i hi
      apply spendable_of_books (h₅.trans (h₄.trans (h₃.trans h₂)))
      exact below_spendable (List.mem_of_mem_take (List.mem_of_mem_take hi))

theorem undoes_requestCancelContract (contractId : Hash) (contract : Option EscrowContractDetails)
    (c : CancelCalls) : Undoes (requestCancelContract prims contractId contract c) s := by
  cases contract with
  | none => exact Undoes.of_keeps (keeps_throwSendError .wallet)
  | some contract =>
      apply undoes_require_bind
      intro _
      apply undoes_require_bind
      intro _
      apply Undoes.bind (Procedure.Keeps.gets _)
      intro tdb s₁ _ _
      apply undoes_require_bind
      intro _
      apply undoes_require_bind
      intro _
      apply Undoes.bind (keeps_buildTransaction prims _ _)
      intro _ s₂ _ _
      exact undoes_prepareAndSpend .regular c.prepare c.finalize

/-- The multisig output is entered and erased again, if there was none of its id. -/
theorem books_buildReleaseTemplates {contractId : Hash} {contract : EscrowContractDetails}
    {c : AcceptCalls} {u : Unit} (hnone : s.multisigTransfers contractId = none)
    (h : buildReleaseTemplates prims contractId contract c s = (.ok u, s')) : s'.books = s.books := by
  obtain ⟨_, s₁, hentered, h⟩ := Procedure.bind_ok_iff.mp h
  cases hentered
  obtain ⟨_, s₂, hrequire, h⟩ := Procedure.bind_ok_iff.mp h
  obtain ⟨_, s₃, hnormal, h⟩ := Procedure.bind_ok_iff.mp h
  obtain ⟨_, s₄, hburn, h⟩ := Procedure.bind_ok_iff.mp h
  cases h
  have hbooks := (((keeps_buildTransaction prims _ _).eq_of_run hburn).trans
    ((keeps_buildTransaction prims _ _).eq_of_run hnormal)).trans
      ((keeps_require _).eq_of_run hrequire)
  have hmultisigs : s₄.multisigTransfers = Function.update s.multisigTransfers contractId _ :=
    congrArg Books.multisigTransfers hbooks
  have hback : Function.update s₄.multisigTransfers contractId none = s.multisigTransfers := by
    rw [hmultisigs, Function.update_idem, ← hnone, Function.update_eq_self]
  calc (eraseMultisig contractId s₄).books
      = { s₄.books with
          multisigTransfers := Function.update s₄.multisigTransfers contractId none } := rfl
    _ = { (enterMultisig contractId contract.proposal.txTemplate
            (getMultisigOutIndex contract.proposal.txTemplate.vout) s).books with
          multisigTransfers := s.multisigTransfers } := by rw [hbooks, hback]
    _ = s.books := rfl

theorem undoes_acceptProposal {contractId : Hash} {contract : Option EscrowContractDetails}
    {c : AcceptCalls} (hnone : s.multisigTransfers contractId = none)
    (hbuilt : ∀ details, contract = some details → details.isA = false →
      details.state = .proposalSent →
        getMultisigOutIndex details.proposal.txTemplate.vout ≠ details.proposal.txTemplate.vout.length →
          ∃ t, buildReleaseTemplates prims contractId details c s = (.ok (), t)) :
    Undoes (acceptProposal prims contractId contract c) s := by
  cases contract with
  | none => exact Undoes.of_keeps (keeps_throwSendError .wallet)
  | some details =>
      apply undoes_require_bind
      intro hisA
      apply undoes_require_bind
      intro hstate
      apply undoes_require_bind
      intro hfound
      obtain ⟨t, hrun⟩ := hbuilt details rfl (by simpa using hisA) (eq_of_beq hstate)
        (by simpa using hfound)
      have hbooks := books_buildReleaseTemplates hnone hrun
      intro e s' h haccepted
      rw [Procedure.bind_of_ok hrun] at h
      have hsame : t.accepted = s.accepted := congrArg Books.accepted hbooks
      exact (undoes_prepareAndSpend .regular c.prepare c.finalize e s' h
        (haccepted.trans hsame.symm)).trans hbooks

theorem buildTransaction_ok {source : MoneySource} {c : BuildCalls} {built : List Nat × Transaction}
    (h : buildTransaction prims source c s = (.ok built, s')) :
    ∀ i ∈ built.1, s'.toIndexedWallet.Spendable i := by
  obtain ⟨selected, s₁, hprepared, h⟩ := Procedure.bind_ok_iff.mp h
  obtain ⟨tx, s₂, hfinalized, h⟩ := Procedure.bind_ok_iff.mp h
  cases h
  intro i hi
  exact spendable_of_books ((keeps_finalizeTransaction prims _ _).eq_of_run hfinalized)
    (prepareTransaction_ok hprepared i hi)

theorem accepted_markTransfersWithFlag (selected : List Nat) (flag : BitVec 32) (throwIfSet : Bool) :
    Procedure.Keeps accepted (markTransfersWithFlag selected flag throwIfSet) :=
  (Procedure.Keeps.gets _).bind fun _ =>
    ((keeps_require _).comp Books.accepted).bind fun _ => Procedure.Keeps.modify fun _ => rfl

theorem accepted_recordProposal (prims : SendPrimitives) (tx : Transaction) (selected : List Nat)
    (r : Recording) : Procedure.Keeps accepted (recordProposal prims tx selected r) :=
  (accepted_markTransfersWithFlag selected _ false).bind fun _ =>
    accepted_addSentTxDetailedInfo prims tx selected r

/-- The transaction of the proposal is not built, and the transfers of its template are freed. -/
theorem buildProposal_error {c : ProposalCalls} {e : SendError}
    (h : buildProposal prims c s = (.error e, s')) : s'.books = s.books := by
  rcases (keeps_called _).bind_elim h with hbooks | ⟨_, s₁, _, h₁, h⟩
  · exact hbooks
  rcases (keeps_buildTransaction prims _ _).bind_elim h with h₂ | ⟨⟨selected, template⟩, s₂, hbuilt, h₂, h⟩
  · exact h₂.trans h₁
  refine Eq.trans ?_ (h₂.trans h₁)
  rcases Procedure.bind_error_iff.mp h with h | ⟨_, s₃, hmark, h⟩
  · exact markTransfersWithFlag_error h
  obtain ⟨rfl, _⟩ := markTransfersWithFlag_ok hmark
  obtain ⟨t, hrun, rfl⟩ := Procedure.onFailure_error_iff.mp h
  change (clearTransfersFromFlag selected IndexedWallet.escrowTemplateMask t).books = s₂.books
  refine books_clear_mark (fun i hi td htd => ?_)
    ((keeps_buildTransaction prims .regular c.proposal).eq_of_run hrun)
  obtain ⟨td', htd', hspendable⟩ := buildTransaction_ok hbuilt i hi
  cases htd.symm.trans htd'
  exact free_of_spendable (by decide) hspendable

theorem accepted_buildProposal (prims : SendPrimitives) (c : ProposalCalls) :
    Procedure.Keeps accepted (buildProposal prims c) := by
  refine Procedure.Keeps.bind ((keeps_called _).comp Books.accepted) fun _ => ?_
  refine Procedure.Keeps.bind ((keeps_buildTransaction prims _ _).comp Books.accepted) fun built => ?_
  refine (accepted_markTransfersWithFlag _ _ false).bind fun _ => ?_
  have hbuild : Procedure.Keeps accepted (buildTransaction prims .regular c.proposal) :=
    (keeps_buildTransaction prims .regular c.proposal).comp Books.accepted
  exact hbuild.onFailure fun _ => rfl

theorem undoes_sendEscrowProposal {c : ProposalCalls} (hreached : c.sendTransactionToNetwork = .ok () ∨
      ∃ e t, buildProposal prims c s = (.error e, t)) : Undoes (sendEscrowProposal prims c) s := by
  intro e s' h haccepted
  rcases Procedure.bind_error_iff.mp h with h | ⟨⟨selected, tx⟩, s₁, hbuilt, h⟩
  · exact buildProposal_error h
  have hsent : c.sendTransactionToNetwork = .ok () := by
    rcases hreached with hsent | ⟨e', t, hfailed⟩
    · exact hsent
    · cases hbuilt.symm.trans hfailed
  have hsame := (accepted_buildProposal prims c).eq_of_run hbuilt
  -- what throws now comes after the network has taken the transaction
  rcases Procedure.bind_error_iff.mp h with h | ⟨_, s₂, hnetwork, h⟩
  · rw [hsent] at h
    cases h
  · have htaken := congrArg SendingWallet.accepted (sendTransactionToNetwork_ok hnetwork)
    have hrest : s'.accepted = s₂.accepted :=
      (accepted_recordProposal prims tx selected c.addSentTxDetailedInfo).eq_of_run h
    rw [hrest, htaken, hsame] at haccepted
    exact absurd haccepted (by simp)

theorem accepted_addPendingKeyImages (pairs : List (PublicKey × KeyImage)) (s : SendingWallet) :
    (pairs.foldl addPendingKeyImage s).accepted = s.accepted := by
  induction pairs generalizing s with
  | nil => rfl
  | cons p pairs ih =>
      rw [List.foldl_cons, ih]
      unfold addPendingKeyImage
      split <;> rfl

theorem accepted_learnKeyImages (ft : FinalizedTx) : Procedure.Keeps accepted (learnKeyImages ft) := by
  have hassociate : ∀ p, Procedure.Keeps accepted (associateKeyImage p) := fun p =>
    (Procedure.Keeps.gets _).bind fun _ =>
      ((keeps_require _).comp Books.accepted).bind fun _ => Procedure.Keeps.modify fun _ => rfl
  unfold learnKeyImages
  split
  case h_1 outs ins _ _ =>
    have hpending : Procedure.Keeps accepted (Procedure.modify fun s =>
        (outs ++ ins.map fun p => (p.2.1, p.2.2)).foldl addPendingKeyImage s : SendProcedure Unit) :=
      Procedure.Keeps.modify fun s => accepted_addPendingKeyImages _ s
    exact hpending.bind fun _ => Procedure.Keeps.forEach hassociate ins
  case h_2 => exact accepted_throwSendError .wallet

theorem accepted_recordSubmitted (prims : SendPrimitives) (ft : FinalizedTx) (r : Recording) :
    Procedure.Keeps accepted (recordSubmitted prims ft r) := by
  apply (accepted_addSentTxDetailedInfo prims ft.tx ft.selectedTransfers r).bind
  intro _
  apply (Procedure.Keeps.gets _).bind
  intro watchOnly
  cases watchOnly with
  | false => exact Procedure.Keeps.pure ()
  | true => exact accepted_learnKeyImages ft

/-- The network does not take the transaction of a blob: its transfers come free. -/
theorem submitTransfer_error {c : SubmitCalls} {e : SendError}
    (h : submitTransfer prims c s = (.error e, s')) (haccepted : s'.accepted = s.accepted) :
    (s'.books = s.books ∧ ∀ ft, c.finalizedTx = .ok ft → c.sameSpendKey = false) ∨
      ∃ ft, c.finalizedTx = .ok ft ∧ c.sameSpendKey = true ∧
        s'.books = (clearTransfersFromFlag ft.selectedTransfers
          (walletTransferDetailFlagSpent ||| walletTransferDetailFlagColdSigReservation) s).books := by
  unfold submitTransfer at h
  cases hft : c.finalizedTx with
  | error e' =>
      rw [hft] at h
      have hthrown : (Except.error e', s.exceptionHandler e') = (Except.error e, s') := h
      cases hthrown
      exact Or.inl ⟨books_exceptionHandler s _, nofun⟩
  | ok ft =>
      rw [hft] at h
      cases hkey : c.sameSpendKey with
      | false =>
          rw [hkey] at h
          have hthrown : (Except.error .wallet, s.exceptionHandler .wallet) = (Except.error e, s') := h
          cases hthrown
          exact Or.inl ⟨books_exceptionHandler s _, fun _ _ => rfl⟩
      | true =>
          rw [hkey] at h
          refine Or.inr ⟨ft, rfl, rfl, ?_⟩
          change (Procedure.onFailure (sendTransactionToNetwork c.sendTransactionToNetwork ft.tx
            ft.selectedTransfers) _ >>= fun _ => recordSubmitted prims ft c.addSentTxDetailedInfo) s =
              _ at h
          rcases Procedure.bind_error_iff.mp h with h | ⟨_, s₁, hnetwork, h⟩
          · obtain ⟨t, hrun, rfl⟩ := Procedure.onFailure_error_iff.mp h
            rw [books_clear, books_clear, sendTransactionToNetwork_error hrun]
          · have htaken := congrArg SendingWallet.accepted
              (sendTransactionToNetwork_ok (Procedure.onFailure_ok_iff.mp hnetwork))
            have hrest : s'.accepted = s₁.accepted :=
              (accepted_recordSubmitted prims ft c.addSentTxDetailedInfo).eq_of_run h
            rw [hrest, htaken] at haccepted
            exact absurd haccepted (by simp)

/-! ## Operations that keep the marks -/

theorem follows_prepareAndSpend {flag : BitVec 32} (hflag : IsHold flag) (i : Nat)
    (source : MoneySource) (pc : PrepareCalls) (c : FinalizeCalls) :
    Procedure.Follows (MarkKept flag i) (do
      let selectedTransfers ← prepareTransaction source pc
      spendAndFinalize prims c selectedTransfers true) := by
  intro s
  apply Procedure.Follows.rel_bind_of_run (follows_of_keeps (keeps_prepareTransaction source pc) flag i s)
  intro selected t hrun hi
  have hselected : i ∉ selected := fun hmem =>
    hi.not_spendable hflag (prepareTransaction_ok hrun i hmem)
  exact follows_spendAndFinalize flag hselected prims c true t hi

theorem follows_storeUnsignedTx (flag : BitVec 32) (i : Nat) (stored : Except SendError Unit)
    (selected : List Nat) :
    Procedure.Follows (MarkKept flag i) (storeUnsignedTxAndReserveTransfers stored selected) :=
  (follows_of_keeps (keeps_called stored) flag i).bind fun _ =>
    follows_markTransfersWithFlag flag _ i selected true

theorem follows_transfer {flag : BitVec 32} (hflag : IsHold flag) (i : Nat) (c : TransferCalls) :
    Procedure.Follows (MarkKept flag i) (transfer prims c) := by
  refine (Procedure.Follows.gets _).bind fun w => ?_
  refine (follows_of_keeps (keeps_require _) flag i).bind fun _ => ?_
  refine (follows_of_keeps (keeps_called _) flag i).bind fun _ s => ?_
  apply Procedure.Follows.rel_bind_of_run (follows_of_keeps (keeps_prepareTransaction _ _) flag i s)
  intro selected t hrun hi
  cases w.watchOnly with
  | true => exact follows_storeUnsignedTx flag i c.storeUnsignedTx selected t hi
  | false =>
      have hselected : i ∉ selected := fun hmem =>
        hi.not_spendable hflag (prepareTransaction_ok hrun i hmem)
      exact follows_spendAndFinalize flag hselected prims c.finalize c.sendToNetwork t hi

theorem follows_sweepBelow {flag : BitVec 32} (hflag : IsHold flag) (i : Nat) (c : SweepCalls) :
    Procedure.Follows (MarkKept flag i) (sweepBelow prims c) := by
  intro s hi
  have hbelow : ∀ n m, i ∉ ((transfersBelow c.sortTransfers s.toIndexedWallet c.thresholdAmount
      c.fakeOutsCount).take n).take m := fun n m hmem =>
    hi.not_spendable hflag (below_spendable (List.mem_of_mem_take (List.mem_of_mem_take hmem)))
  unfold sweepBelow
  rw [Procedure.gets_bind]
  refine (follows_of_keeps (keeps_require _) flag i).bind (fun _ => ?_) s hi
  refine (follows_of_keeps (keeps_called _) flag i).bind fun found => ?_
  refine (follows_of_keeps (keeps_prefetch _ _) flag i).bind fun _ => ?_
  refine (follows_of_keeps (keeps_calledIf _ _) flag i).bind fun _ => ?_
  refine (follows_of_keeps (keeps_called _) flag i).bind fun inputs => ?_
  cases s.watchOnly with
  | true => exact follows_storeUnsignedTx flag i c.storeUnsignedTx _
  | false => exact follows_spendAndFinalize flag (hbelow _ _) prims c.finalize true

theorem follows_buildReleaseTemplates (flag : BitVec 32) (i : Nat) (prims : SendPrimitives)
    (contractId : Hash) (contract : EscrowContractDetails) (c : AcceptCalls) :
    Procedure.Follows (MarkKept flag i) (buildReleaseTemplates prims contractId contract c) := by
  refine Procedure.Follows.bind (Procedure.Follows.modify fun _ hi => hi) fun _ => ?_
  refine (follows_of_keeps (keeps_require _) flag i).bind fun _ => ?_
  refine (follows_of_keeps (keeps_buildTransaction prims _ _) flag i).bind fun _ => ?_
  refine (follows_of_keeps (keeps_buildTransaction prims _ _) flag i).bind fun _ => ?_
  exact Procedure.Follows.modify fun _ hi => hi

theorem follows_acceptProposal {flag : BitVec 32} (hflag : IsHold flag) (i : Nat) (contractId : Hash)
    (contract : Option EscrowContractDetails) (c : AcceptCalls) :
    Procedure.Follows (MarkKept flag i) (acceptProposal prims contractId contract c) := by
  cases contract with
  | none => exact follows_of_keeps (keeps_throwSendError .wallet) flag i
  | some details =>
      refine (follows_of_keeps (keeps_require _) flag i).bind fun _ => ?_
      refine (follows_of_keeps (keeps_require _) flag i).bind fun _ => ?_
      refine (follows_of_keeps (keeps_require _) flag i).bind fun _ => ?_
      refine (follows_buildReleaseTemplates flag i prims contractId details c).bind fun _ => ?_
      exact follows_prepareAndSpend hflag i .regular c.prepare c.finalize

theorem follows_requestCancelContract {flag : BitVec 32} (hflag : IsHold flag) (i : Nat)
    (contractId : Hash) (contract : Option EscrowContractDetails) (c : CancelCalls) :
    Procedure.Follows (MarkKept flag i) (requestCancelContract prims contractId contract c) := by
  cases contract with
  | none => exact follows_of_keeps (keeps_throwSendError .wallet) flag i
  | some details =>
      refine (follows_of_keeps (keeps_require _) flag i).bind fun _ => ?_
      refine (follows_of_keeps (keeps_require _) flag i).bind fun _ => ?_
      refine (Procedure.Follows.gets _).bind fun tdb => ?_
      refine (follows_of_keeps (keeps_require _) flag i).bind fun _ => ?_
      refine (follows_of_keeps (keeps_require _) flag i).bind fun _ => ?_
      refine (follows_of_keeps (keeps_buildTransaction prims _ _) flag i).bind fun _ => ?_
      exact follows_prepareAndSpend hflag i .regular c.prepare c.finalize

theorem follows_recordProposal (flag : BitVec 32) (i : Nat) (prims : SendPrimitives) (tx : Transaction)
    (selected : List Nat) (r : Recording) :
    Procedure.Follows (MarkKept flag i) (recordProposal prims tx selected r) :=
  (follows_markTransfersWithFlag flag _ i selected false).bind fun _ =>
    follows_addSentTxDetailedInfo flag i prims tx selected r

theorem follows_buildProposal {flag : BitVec 32} (hflag : IsHold flag) (i : Nat) (c : ProposalCalls) :
    Procedure.Follows (MarkKept flag i) (buildProposal prims c) := by
  refine (follows_of_keeps (keeps_called _) flag i).bind fun _ s => ?_
  apply Procedure.Follows.rel_bind_of_run (follows_of_keeps (keeps_buildTransaction prims _ _) flag i s)
  intro built t hrun hi
  have hselected : i ∉ built.1 := fun hmem =>
    hi.not_spendable hflag (buildTransaction_ok hrun i hmem)
  refine (follows_markTransfersWithFlag flag _ i built.1 false).bind (fun _ => ?_) t hi
  have hundo : ∀ s, MarkKept flag i s (undoTemplate built.1 s) := by
    intro s hs
    exact hs.clear hselected
  exact (follows_of_keeps (keeps_buildTransaction prims _ _) flag i).onFailure hundo

theorem follows_sendEscrowProposal {flag : BitVec 32} (hflag : IsHold flag) (i : Nat)
    (c : ProposalCalls) : Procedure.Follows (MarkKept flag i) (sendEscrowProposal prims c) := by
  refine (follows_buildProposal hflag i c).bind fun proposal => ?_
  exact (follows_sendTransactionToNetwork flag i _ proposal.2 proposal.1).bind fun _ =>
    follows_recordProposal flag i prims proposal.2 proposal.1 c.addSentTxDetailedInfo

theorem transfers_addPendingKeyImages (pairs : List (PublicKey × KeyImage)) (s : SendingWallet) :
    (pairs.foldl addPendingKeyImage s).transfers = s.transfers := by
  induction pairs generalizing s with
  | nil => rfl
  | cons p pairs ih =>
      rw [List.foldl_cons, ih]
      unfold addPendingKeyImage
      split <;> rfl

theorem markKept_associate (flag : BitVec 32) (i : Nat) (s : SendingWallet) (transferIndex : Nat)
    (keyImage : KeyImage) : MarkKept flag i s (s.onWallet (·.associateKeyImage transferIndex keyImage)) := by
  intro ⟨td, htd, hflag⟩
  unfold Marked onWallet IndexedWallet.associateKeyImage
  dsimp only
  split
  · dsimp only
    rw [List.getElem?_modify, htd]
    refine ⟨_, rfl, ?_⟩
    split <;> exact hflag
  · exact ⟨td, htd, hflag⟩

theorem follows_learnKeyImages (flag : BitVec 32) (i : Nat) (ft : FinalizedTx) :
    Procedure.Follows (MarkKept flag i) (learnKeyImages ft) := by
  have hassociate : ∀ p, Procedure.Follows (MarkKept flag i) (associateKeyImage p) := fun p =>
    (Procedure.Follows.gets _).bind fun _ =>
      (follows_of_keeps (keeps_require _) flag i).bind fun _ =>
        Procedure.Follows.modify fun s => markKept_associate flag i s p.1 p.2.2
  unfold learnKeyImages
  split
  case h_1 outs ins _ _ =>
    have hpending : Procedure.Follows (MarkKept flag i) (Procedure.modify fun s =>
        (outs ++ ins.map fun p => (p.2.1, p.2.2)).foldl addPendingKeyImage s : SendProcedure Unit) := by
      apply Procedure.Follows.modify
      intro s ⟨td, htd, hflag⟩
      exact ⟨td, (transfers_addPendingKeyImages _ s).symm ▸ htd, hflag⟩
    exact hpending.bind fun _ => Procedure.Follows.forEach hassociate ins
  case h_2 => exact follows_of_keeps (keeps_throwSendError .wallet) flag i

theorem follows_recordSubmitted (flag : BitVec 32) (i : Nat) (prims : SendPrimitives)
    (ft : FinalizedTx) (r : Recording) :
    Procedure.Follows (MarkKept flag i) (recordSubmitted prims ft r) := by
  refine (follows_addSentTxDetailedInfo flag i prims ft.tx ft.selectedTransfers r).bind fun _ => ?_
  refine (Procedure.Follows.gets _).bind fun watchOnly => ?_
  cases watchOnly with
  | false => exact Procedure.Follows.pure ()
  | true => exact follows_learnKeyImages flag i ft

/-- A blob that the network does not take frees its own transfers only. -/
theorem follows_submitTransfer {flag : BitVec 32} {i : Nat} {c : SubmitCalls}
    (hi : ∀ ft e, c.finalizedTx = .ok ft → c.sendTransactionToNetwork = .error e →
      i ∉ ft.selectedTransfers) :
    Procedure.Follows (MarkKept flag i) (submitTransfer prims c) := by
  intro s
  apply Procedure.Follows.rel_bind_of_run (follows_of_keeps (keeps_called _) flag i s)
  intro ft t hft
  refine (follows_of_keeps (keeps_require _) flag i).bind (fun _ => ?_) t
  refine Procedure.Follows.bind ?_ fun _ => follows_recordSubmitted flag i prims ft _
  cases hnetwork : c.sendTransactionToNetwork with
  | ok u => exact fun _ hs => hs
  | error e =>
      have hundo : ∀ s, MarkKept flag i s (clearTransfersFromFlag ft.selectedTransfers
          (walletTransferDetailFlagSpent ||| walletTransferDetailFlagColdSigReservation) s) :=
        fun s hs => hs.clear (hi ft e (called_ok hft).1 hnetwork)
      exact (follows_sendTransactionToNetwork flag i (.error e) ft.tx ft.selectedTransfers).onFailure hundo

/-! ## Operations that spend -/

/-- If the run ends as asked, the transfers of the transactions that the network has taken in it are
marked as spent. -/
def Spends (asked : Except SendError Unit → Prop) (x : SendProcedure Unit) (s : SendingWallet) : Prop :=
  ∀ r s', asked r → x s = (r, s') → ∀ e ∈ s'.accepted, e ∈ s.accepted ∨
    ∀ i ∈ e.2, s'.Marked walletTransferDetailFlagSpent i

theorem Spends.of_keeps {asked : Except SendError Unit → Prop} {x : SendProcedure Unit}
    (hx : Procedure.Keeps accepted x) : Spends asked x s := by
  intro r s' _ h e he
  exact Or.inl (hx.eq_of_run h ▸ he)

theorem Spends.bind {asked : Except SendError Unit → Prop} {α : Type} {x : SendProcedure α}
    {f : α → SendProcedure Unit} (hx : Procedure.Keeps accepted x)
    (hf : ∀ a t, x s = (.ok a, t) → Spends asked (f a) t) : Spends asked (x >>= f) s := by
  intro r s' hr h e he
  rcases hx.bind_elim h with hsame | ⟨a, t, hrun, hsame, h⟩
  · exact Or.inl (hsame ▸ he)
  · rcases hf a t hrun r s' hr h e he with he | hmarked
    · exact Or.inl (hsame ▸ he)
    · exact Or.inr hmarked

theorem accepted_of_books {α : Type} {x : SendProcedure α} (hx : Procedure.Keeps books x) :
    Procedure.Keeps accepted x := hx.comp Books.accepted

theorem spends_spendAndFinalize (c : FinalizeCalls) (selected : List Nat) (broadcastTx : Bool) :
    Spends (· = .ok ()) (spendAndFinalize prims c selected broadcastTx) s := by
  rintro _ s' rfl h e he
  obtain ⟨haccepted, hmarked⟩ := spendAndFinalize_ok h
  rcases haccepted with hsame | ⟨tx, hsent⟩
  · exact Or.inl (hsame ▸ he)
  · rw [hsent, List.mem_append, List.mem_singleton] at he
    rcases he with he | rfl
    · exact Or.inl he
    · exact Or.inr hmarked

theorem accepted_storeUnsignedTx (stored : Except SendError Unit) (selected : List Nat) :
    Procedure.Keeps accepted (storeUnsignedTxAndReserveTransfers stored selected) :=
  (accepted_of_books (keeps_called stored)).bind fun _ => accepted_markTransfersWithFlag selected _ true

theorem spends_transfer (c : TransferCalls) : Spends (· = .ok ()) (transfer prims c) s := by
  refine Spends.bind (Procedure.Keeps.gets _) fun w _ _ => ?_
  refine Spends.bind (accepted_of_books (keeps_require _)) fun _ _ _ => ?_
  refine Spends.bind (accepted_of_books (keeps_called _)) fun _ _ _ => ?_
  refine Spends.bind (accepted_of_books (keeps_prepareTransaction _ _)) fun selected _ _ => ?_
  cases w.watchOnly with
  | true => exact Spends.of_keeps (accepted_storeUnsignedTx c.storeUnsignedTx selected)
  | false => exact spends_spendAndFinalize c.finalize selected c.sendToNetwork

theorem spends_sweepBelow (c : SweepCalls) : Spends (· = .ok ()) (sweepBelow prims c) s := by
  refine Spends.bind (Procedure.Keeps.gets _) fun w _ _ => ?_
  refine Spends.bind (accepted_of_books (keeps_require _)) fun _ _ _ => ?_
  refine Spends.bind (accepted_of_books (keeps_called _)) fun _ _ _ => ?_
  refine Spends.bind (accepted_of_books (keeps_prefetch _ _)) fun _ _ _ => ?_
  refine Spends.bind (accepted_of_books (keeps_calledIf _ _)) fun _ _ _ => ?_
  refine Spends.bind (accepted_of_books (keeps_called _)) fun inputs _ _ => ?_
  cases w.watchOnly with
  | true => exact Spends.of_keeps (accepted_storeUnsignedTx c.storeUnsignedTx _)
  | false => exact spends_spendAndFinalize c.finalize _ true

theorem spends_prepareAndSpend (source : MoneySource) (pc : PrepareCalls) (c : FinalizeCalls) :
    Spends (· = .ok ()) (do
      let selectedTransfers ← prepareTransaction source pc
      spendAndFinalize prims c selectedTransfers true) s :=
  Spends.bind (accepted_of_books (keeps_prepareTransaction source pc)) fun selected _ _ =>
    spends_spendAndFinalize c selected true

theorem spends_acceptProposal (contractId : Hash) (contract : Option EscrowContractDetails)
    (c : AcceptCalls) : Spends (· = .ok ()) (acceptProposal prims contractId contract c) s := by
  cases contract with
  | none => exact Spends.of_keeps (accepted_throwSendError .wallet)
  | some details =>
      refine Spends.bind (accepted_of_books (keeps_require _)) fun _ _ _ => ?_
      refine Spends.bind (accepted_of_books (keeps_require _)) fun _ _ _ => ?_
      refine Spends.bind (accepted_of_books (keeps_require _)) fun _ _ _ => ?_
      have hentered : Procedure.Keeps accepted
          (buildReleaseTemplates prims contractId details c) := by
        refine Procedure.Keeps.bind (Procedure.Keeps.modify fun _ => rfl) fun _ => ?_
        refine (accepted_of_books (keeps_require _)).bind fun _ => ?_
        refine (accepted_of_books (keeps_buildTransaction prims _ _)).bind fun _ => ?_
        refine (accepted_of_books (keeps_buildTransaction prims _ _)).bind fun _ => ?_
        exact Procedure.Keeps.modify fun _ => rfl
      refine Spends.bind hentered fun _ _ _ => ?_
      exact spends_prepareAndSpend .regular c.prepare c.finalize

theorem spends_requestCancelContract (contractId : Hash) (contract : Option EscrowContractDetails)
    (c : CancelCalls) :
    Spends (· = .ok ()) (requestCancelContract prims contractId contract c) s := by
  cases contract with
  | none => exact Spends.of_keeps (accepted_throwSendError .wallet)
  | some details =>
      refine Spends.bind (accepted_of_books (keeps_require _)) fun _ _ _ => ?_
      refine Spends.bind (accepted_of_books (keeps_require _)) fun _ _ _ => ?_
      refine Spends.bind (Procedure.Keeps.gets _) fun _ _ _ => ?_
      refine Spends.bind (accepted_of_books (keeps_require _)) fun _ _ _ => ?_
      refine Spends.bind (accepted_of_books (keeps_require _)) fun _ _ _ => ?_
      refine Spends.bind (accepted_of_books (keeps_buildTransaction prims _ _)) fun _ _ _ => ?_
      exact spends_prepareAndSpend .regular c.prepare c.finalize

theorem markTransfersAsSpent_of_spendable {selected : List Nat} {e : SendError}
    (hselected : ∀ i ∈ selected, s.toIndexedWallet.Spendable i) :
    markTransfersAsSpent selected s ≠ (.error e, s') := by
  intro h
  rcases Procedure.bind_error_iff.mp h with h | ⟨transfers, s₁, hgets, h⟩
  · cases h
  cases hgets
  have hall : (selected.all fun i => (s.transfers[i]?).any fun td =>
      !false || td.flags &&& walletTransferDetailFlagSpent == 0) = true := by
    apply List.all_eq_true.mpr
    intro i hi
    obtain ⟨td, htd, _⟩ := hselected i hi
    rw [htd]
    rfl
  rw [hall] at h
  cases h

/-- The marks are made before anything can throw again. -/
theorem spends_sendProposal {c : ProposalCalls} {tx : Transaction} {selected : List Nat}
    (hselected : ∀ i ∈ selected, s.toIndexedWallet.Spendable i) :
    Spends (fun _ => True) (do
      sendTransactionToNetwork c.sendTransactionToNetwork tx selected
      recordProposal prims tx selected c.addSentTxDetailedInfo) s := by
  intro r s' _ h e he
  rcases hsend : sendTransactionToNetwork c.sendTransactionToNetwork tx selected s with ⟨e' | u, s₁⟩
  · rw [Procedure.bind_of_error hsend] at h
    cases h
    have hsame : s'.accepted = s.accepted :=
      congrArg Books.accepted (sendTransactionToNetwork_error hsend)
    exact Or.inl (hsame ▸ he)
  · rw [Procedure.bind_of_ok hsend] at h
    have haccepted := (accepted_recordProposal prims tx selected _).eq_of_run h
    have hs₁ := sendTransactionToNetwork_ok hsend
    rw [haccepted, hs₁] at he
    rcases List.mem_append.mp he with he | he
    · exact Or.inl he
    right
    intro i hi
    rw [List.mem_singleton.mp he] at hi
    have hselected₁ : ∀ i ∈ selected, s₁.toIndexedWallet.Spendable i := hs₁ ▸ hselected
    rcases hmark : markTransfersAsSpent selected s₁ with ⟨e' | u', s₂⟩
    · exact absurd hmark (markTransfersAsSpent_of_spendable hselected₁)
    · obtain ⟨rfl, hlt⟩ := markTransfersWithFlag_ok hmark
      have hrest := Procedure.bind_of_ok (f := fun _ =>
        addSentTxDetailedInfo prims tx selected c.addSentTxDetailedInfo) hmark
      have hkept := (follows_addSentTxDetailedInfo walletTransferDetailFlagSpent i prims tx selected
        c.addSentTxDetailedInfo).rel_of_run (hrest.symm.trans h)
      exact hkept (marked_mark (by decide) hi (hlt i hi))

theorem buildProposal_ok {c : ProposalCalls} {built : List Nat × Transaction}
    (h : buildProposal prims c s = (.ok built, s')) :
    ∀ i ∈ built.1, s'.toIndexedWallet.Spendable i := by
  obtain ⟨_, s₁, _, h⟩ := Procedure.bind_ok_iff.mp h
  obtain ⟨template, s₂, _, h⟩ := Procedure.bind_ok_iff.mp h
  obtain ⟨_, s₃, _, h⟩ := Procedure.bind_ok_iff.mp h
  exact buildTransaction_ok (Procedure.onFailure_ok_iff.mp h)

theorem spends_sendEscrowProposal (c : ProposalCalls) :
    Spends (fun _ => True) (sendEscrowProposal prims c) s :=
  Spends.bind (accepted_buildProposal prims c) fun _ _ hbuilt =>
    spends_sendProposal (buildProposal_ok hbuilt)

/-! ## What is promised -/

/-- What `submit_transfer` frees when the network does not take its transaction. -/
def released (s : SendingWallet) : SendOperation → SendingWallet
  | .submitTransfer c =>
      match c.finalizedTx, c.sameSpendKey with
      | .ok ft, true =>
          clearTransfersFromFlag ft.selectedTransfers walletTransferDetailFlagColdSigReservation s
      | _, _ => s
  | _ => s

/-- The handler of the operation reaches what was changed before it threw, and no more. -/
def Reached (prims : SendPrimitives) (s : SendingWallet) : SendOperation → Prop
  | .submitTransfer c => ∀ ft, c.finalizedTx = .ok ft →
      ∀ i ∈ ft.selectedTransfers, ¬ s.Marked walletTransferDetailFlagSpent i
  | .sendEscrowProposal c => c.sendTransactionToNetwork = .ok () ∨
      ∃ e t, buildProposal prims c s = (.error e, t)
  | .acceptProposal contractId contract c => s.multisigTransfers contractId = none ∧
      ∀ details, contract = some details → details.isA = false → details.state = .proposalSent →
        getMultisigOutIndex details.proposal.txTemplate.vout ≠ details.proposal.txTemplate.vout.length →
          ∃ t, buildReleaseTemplates prims contractId details c s = (.ok (), t)
  | _ => True

def FailsCleanly (prims : SendPrimitives) (s : SendingWallet) (op : SendOperation) : Prop :=
  ∀ e s', perform prims op s = (.error e, s') → s'.accepted = s.accepted → Reached prims s op →
    Unchanged (released s op) s'

/-- The transfers of what the network takes are marked: by `send_escrow_proposal` at once, by the
others when they return.  `submit_transfer` leaves its transfers with their reservation. -/
def SpendsWhatItSends (prims : SendPrimitives) (s : SendingWallet) : SendOperation → Prop
  | .submitTransfer _ => True
  | .sendEscrowProposal c => Spends (fun _ => True) (sendEscrowProposal prims c) s
  | op => Spends (· = .ok ()) (perform prims op) s

/-- The operation frees the transfer. -/
def Releases (i : Nat) : SendOperation → Prop
  | .submitTransfer c => ∃ ft e, c.finalizedTx = .ok ft ∧ c.sendTransactionToNetwork = .error e ∧
      i ∈ ft.selectedTransfers
  | _ => False

def StepKeeps (prims : SendPrimitives) (flag : BitVec 32) (i : Nat) (s : SendingWallet) :
    SendEvent → Prop
  | .operation op => ¬ Releases i op
  | .wallet event => MarkKept flag i s (sendStep prims s (.wallet event))

/-- A transfer that is spent or reserved for cold signing stays so, whatever throws. -/
def MarksStay (prims : SendPrimitives) (s : SendingWallet) (events : List SendEvent) : Prop :=
  ∀ flag, IsHold flag → ∀ i, s.Marked flag i →
    (∀ done event rest, events = done ++ event :: rest →
      StepKeeps prims flag i (sendRun prims s done) event) →
    (sendRun prims s events).Marked flag i

theorem unchanged_submitTransfer {c : SubmitCalls} (hreached : Reached prims s (.submitTransfer c))
    {e : SendError} (h : submitTransfer prims c s = (.error e, s'))
    (haccepted : s'.accepted = s.accepted) : Unchanged (released s (.submitTransfer c)) s' := by
  apply Unchanged.of_books
  unfold released
  dsimp only
  rcases submitTransfer_error h haccepted with ⟨hbooks, hkey⟩ | ⟨ft, hft, hkey, hbooks⟩
  · cases hft : c.finalizedTx with
    | error e => exact hbooks
    | ok ft =>
        rw [hkey ft hft]
        exact hbooks
  · rw [hft, hkey]
    dsimp only
    rw [hbooks, books_clear, books_clear]
    refine congrArg (fun transfers => { s.books with transfers })
      (IndexedWallet.changedFlags_congr fun i hi td htd => ?_)
    -- the mark of a spend is not there to be cleared
    obtain ⟨td', htd', rfl⟩ := Option.map_eq_some_iff.mp (List.getElem?_map.symm.trans htd)
    have hunspent : td'.flags &&& walletTransferDetailFlagSpent = 0 := by
      by_contra hspent
      exact hreached ft hft i hi ⟨td', htd', hspent⟩
    change td'.flags &&& ~~~(walletTransferDetailFlagSpent |||
      walletTransferDetailFlagColdSigReservation) = td'.flags &&& ~~~walletTransferDetailFlagColdSigReservation
    ext j hj
    have hbit : (td'.flags &&& walletTransferDetailFlagSpent)[j] = false := by simp [hunspent]
    rw [BitVec.getElem_and] at hbit
    simp only [BitVec.getElem_and, BitVec.getElem_not, BitVec.getElem_or]
    cases hflag : td'.flags[j] <;> cases hmark : walletTransferDetailFlagSpent[j] <;> simp_all

theorem FailsCleanly.all (prims : SendPrimitives) (s : SendingWallet) (op : SendOperation) :
    FailsCleanly prims s op := by
  intro e s' h haccepted hreached
  cases op with
  | transfer c => exact Unchanged.of_books (undoes_transfer c e s' h haccepted)
  | sweepBelow c => exact Unchanged.of_books (undoes_sweepBelow c e s' h haccepted)
  | submitTransfer c => exact unchanged_submitTransfer hreached h haccepted
  | sendEscrowProposal c =>
      exact Unchanged.of_books (undoes_sendEscrowProposal hreached e s' h haccepted)
  | acceptProposal contractId contract c =>
      exact Unchanged.of_books (undoes_acceptProposal hreached.1 hreached.2 e s' h haccepted)
  | requestCancelContract contractId contract c =>
      exact Unchanged.of_books (undoes_requestCancelContract contractId contract c e s' h haccepted)

theorem SpendsWhatItSends.all (prims : SendPrimitives) (s : SendingWallet) (op : SendOperation) :
    SpendsWhatItSends prims s op := by
  cases op with
  | transfer c => exact spends_transfer c
  | sweepBelow c => exact spends_sweepBelow c
  | submitTransfer c => trivial
  | sendEscrowProposal c => exact spends_sendEscrowProposal c
  | acceptProposal contractId contract c => exact spends_acceptProposal contractId contract c
  | requestCancelContract contractId contract c => exact spends_requestCancelContract contractId contract c

theorem follows_perform {flag : BitVec 32} (hflag : IsHold flag) {i : Nat} {op : SendOperation}
    (hi : ¬ Releases i op) : Procedure.Follows (MarkKept flag i) (perform prims op) := by
  cases op with
  | transfer c => exact follows_transfer hflag i c
  | sweepBelow c => exact follows_sweepBelow hflag i c
  | submitTransfer c =>
      exact follows_submitTransfer fun ft e hft hnetwork hmem => hi ⟨ft, e, hft, hnetwork, hmem⟩
  | sendEscrowProposal c => exact follows_sendEscrowProposal hflag i c
  | acceptProposal contractId contract c => exact follows_acceptProposal hflag i contractId contract c
  | requestCancelContract contractId contract c =>
      exact follows_requestCancelContract hflag i contractId contract c

theorem MarksStay.all (prims : SendPrimitives) (s : SendingWallet) (events : List SendEvent) :
    MarksStay prims s events := by
  intro flag hflag i hi hsteps
  have hstates := RunInvariant.forall_states (P := fun s : SendingWallet => s.Marked flag i)
    (Q := StepKeeps prims flag i) hi (fun s event hs hstep => ?_) hsteps
  · exact hstates events [] (List.append_nil _).symm
  · cases event with
    | operation op => exact follows_perform hflag hstep s hs
    | wallet event => exact hstep hs

/-- An operation that throws before the network has taken its transaction leaves the wallet as it was,
and one whose transaction was taken, by it or before, takes no mark of its transfers back. -/
theorem failed_sends_are_undone (prims : SendPrimitives) (s : SendingWallet) :
    (∀ op, FailsCleanly prims s op ∧ SpendsWhatItSends prims s op) ∧
      ∀ events, MarksStay prims s events :=
  ⟨fun op => ⟨FailsCleanly.all prims s op, SpendsWhatItSends.all prims s op⟩,
    MarksStay.all prims s⟩

def sampleSendPrims : SendPrimitives where
  toProposalPrimitives := PoolWallet.proposalPrims 2000000000
  getObjectBlobsize := fun _ => 100

/-- A wallet with a transfer of 10. -/
def oneTransfer : List SendEvent :=
  [.wallet (.advance 30 1000000000),
    .wallet (.processNewTransaction 5 0
      ⟨PoolWallet.sampleTransaction 1 [], [⟨0, 5, 7, false, false⟩], [], 10⟩)]

/-- A transfer of 10, and the answer of the network. -/
def sampleTransfer (answer : Except SendError Unit) : SendOperation :=
  .transfer {
    source := .regular
    checkSelfDirected := .ok ()
    prepare := ⟨0, 0, .ok 10, .ok (), .ok fun _ => 7, .ok (), .ok ()⟩
    storeUnsignedTx := .ok ()
    finalize := ⟨.ok (PoolWallet.sampleTransaction 9 []), .ok, answer, .done []⟩
    sendToNetwork := true }

/-- The blob of a transaction that spends the transfer, and the answer of the network. -/
def sampleSubmit (answer : Except SendError Unit) : SendOperation :=
  .submitTransfer ⟨.ok ⟨PoolWallet.sampleTransaction 9 [], [0], [], []⟩, true, answer, .done []⟩

def flagsOf (s : SendingWallet) : List (BitVec 32) := s.transfers.map fun td => td.flags

theorem failed_sends_are_undone_sample :
    Unchanged (sendRun sampleSendPrims (empty false false) oneTransfer)
      (perform sampleSendPrims (sampleTransfer (.error .other))
        (sendRun sampleSendPrims (empty false false) oneTransfer)).2 := by
  generalize hs : sendRun sampleSendPrims (empty false false) oneTransfer = s
  have hclean := ((failed_sends_are_undone sampleSendPrims s).1 (sampleTransfer (.error .other))).1
  refine hclean .other _ (Prod.ext ?_ rfl) ?_ trivial
  · rw [← hs]
    dsimp only
    decide +kernel
  · rw [← hs]
    decide +kernel

/-- A watch-only wallet has reserved a transfer.  A blob that the network does not take frees it, and
one that it takes does not mark it as spent. -/
theorem failed_sends_are_not_undone :
    ¬ (∀ op e s', perform sampleSendPrims op (sendRun sampleSendPrims (empty true false)
          (oneTransfer ++ [.operation (sampleTransfer (.ok ()))])) = (.error e, s') →
        s'.accepted = (sendRun sampleSendPrims (empty true false)
          (oneTransfer ++ [.operation (sampleTransfer (.ok ()))])).accepted →
        Unchanged (sendRun sampleSendPrims (empty true false)
          (oneTransfer ++ [.operation (sampleTransfer (.ok ()))])) s') ∧
      ¬ ∀ op, Spends (fun _ => True) (perform sampleSendPrims op) (sendRun sampleSendPrims
        (empty true false) (oneTransfer ++ [.operation (sampleTransfer (.ok ()))])) := by
  generalize hs : sendRun sampleSendPrims (empty true false)
    (oneTransfer ++ [.operation (sampleTransfer (.ok ()))]) = s
  constructor
  · intro hclaim
    have hflags := (hclaim (sampleSubmit (.error .other)) .other _
      (Prod.ext (by rw [← hs]; rfl) rfl) (by rw [← hs]; rfl)).flags
    have hbefore : flagsOf s = [16] := by
      rw [← hs]
      decide +kernel
    have hafter : flagsOf (perform sampleSendPrims (sampleSubmit (.error .other)) s).2 = [0] := by
      rw [← hs]
      decide +kernel
    exact absurd (hafter.symm.trans (hflags.trans hbefore)) (by decide)
  · intro hclaim
    have haccepted : (perform sampleSendPrims (sampleSubmit (.ok ())) s).2.accepted =
        [(PoolWallet.sampleTransaction 9 [], [0])] := by
      rw [← hs]
      decide +kernel
    have hnone : s.accepted = [] := by
      rw [← hs]
      decide +kernel
    have hflags : flagsOf (perform sampleSendPrims (sampleSubmit (.ok ())) s).2 = [16] := by
      rw [← hs]
      decide +kernel
    rcases hclaim (sampleSubmit (.ok ())) _ _ trivial rfl _
      (haccepted ▸ List.mem_singleton_self _) with hmem | hmarked
    · rw [hnone] at hmem
      exact absurd hmem List.not_mem_nil
    · obtain ⟨td, htd, hspent⟩ := hmarked 0 (List.mem_singleton_self 0)
      have hget : (flagsOf (perform sampleSendPrims (sampleSubmit (.ok ())) s).2)[0]? =
          some td.flags := List.getElem?_map.trans (congrArg (Option.map fun td => td.flags) htd)
      rw [hflags] at hget
      rw [← Option.some.inj hget] at hspent
      exact hspent (by decide)

end SendingWallet

end Chinet
