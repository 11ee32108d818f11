import Chinet.Lib.RunInvariant
import Chinet.Wallet.EveryTransfer
import Chinet.Wallet.UnconfirmedTxs

/-!
# Spends that are in no block

`scan_tx_pool` leaves a multisig transfer without a spent height marked exactly if the pool
spends it, and `scan_unconfirmed_outdate_tx` a transfer exactly if a transaction that is left
spends its output, in every run whose scans find what they rely on.
-/

namespace Chinet

namespace PoolWallet

variable {prims : PoolPrimitives} {keyImageOf : Transaction → Nat → KeyImage} {w w' w'' : PoolWallet}

/-! ## What follows the pool -/

def SpentInPool (txs : List Transaction) (multisigId : Hash) : Prop :=
  ∃ tx ∈ txs, multisigId ∈ multisigInputs tx

instance (txs : List Transaction) (multisigId : Hash) : Decidable (SpentInPool txs multisigId) :=
  inferInstanceAs (Decidable (∃ tx ∈ txs, multisigId ∈ multisigInputs tx))

/-- The table in the comment of `scan_tx_pool`. -/
def FollowsPool (w : PoolWallet) (txs : List Transaction) : Prop :=
  ∀ multisigId tdb, w.multisigTransfers multisigId = some tdb → tdb.spentHeight = 0 →
    (tdb.isSpent = true ↔ SpentInPool txs multisigId)

/-- A transaction spends the output of a transfer; `keyImageOf` is the key image of an output. -/
def Spends (keyImageOf : Transaction → Nat → KeyImage) (tx : Transaction) (td : IndexedTransfer) :
    Prop :=
  ∃ input, Txin.toKey input ∈ tx.vin ∧ input.kImage = keyImageOf td.tx td.internalOutputIndex

/-- No block spends the transfer, and it is reserved for no escrow. -/
def Unsettled (td : IndexedTransfer) : Prop :=
  isToKeyOutput td = true ∧ td.spentHeight = 0 ∧
    td.flags &&& walletTransferDetailFlagEscrowProposalReservation = 0

def MarkedSpent (td : IndexedTransfer) : Prop := td.flags &&& walletTransferDetailFlagSpent ≠ 0

def FollowsUnconfirmed (keyImageOf : Transaction → Nat → KeyImage) (w : PoolWallet) : Prop :=
  ∀ td ∈ w.transfers, Unsettled td →
    (MarkedSpent td ↔ ∃ e ∈ w.unconfirmedEntries, Spends keyImageOf e.2.tx td)

/-- What a scan is to leave; an exception leaves nothing. -/
def Followed (prims : PoolPrimitives) (keyImageOf : Transaction → Nat → KeyImage) (w : PoolWallet) :
    Event → Prop
  | .scanTxPool txs txExpirationTsMedian =>
      (scanTxPool prims w txs txExpirationTsMedian).2 = true →
        FollowsPool (scanTxPool prims w txs txExpirationTsMedian).1 txs
  | .scanUnconfirmedOutdateTx txExpirationTsMedian =>
      FollowsUnconfirmed keyImageOf (w.scanUnconfirmedOutdateTx txExpirationTsMedian)
  | _ => True

/-! ## The multisig marks of a scan -/

def markSpent (tdb : MultisigTransfer) : MultisigTransfer :=
  { tdb with flags := tdb.flags ||| walletTransferDetailFlagSpent, spentHeight := 0 }

theorem markSpent_markSpent (tdb : MultisigTransfer) : markSpent (markSpent tdb) = markSpent tdb := by
  simp only [markSpent, BitVec.or_assoc, BitVec.or_self]

@[simp] theorem markSpent_isSpent (tdb : MultisigTransfer) : (markSpent tdb).isSpent = true := by
  have hbit : (tdb.flags ||| 1#32) &&& 1#32 = 1#32 := by
    ext i hi
    simp +contextual
  simp only [markSpent, MultisigTransfer.isSpent, bne_iff_ne, ne_eq]
  intro h
  have : (1#32 : BitVec 32) = 0 := hbit.symm.trans h
  exact absurd this (by decide)

/-- The inputs that were looked at are marked, unless the last pool had them already. -/
def markScanned (listed ids : List Hash) (transfers : Hash → Option MultisigTransfer) :
    Hash → Option MultisigTransfer :=
  fun multisigId =>
    if multisigId ∈ ids ∧ multisigId ∉ listed then (transfers multisigId).map markSpent
    else transfers multisigId

theorem markScanned_nil (listed : List Hash) (transfers : Hash → Option MultisigTransfer) :
    markScanned listed [] transfers = transfers := by
  funext multisigId
  simp [markScanned]

theorem isSome_markScanned {listed ids : List Hash} {transfers : Hash → Option MultisigTransfer}
    {multisigId : Hash} :
    (markScanned listed ids transfers multisigId).isSome = (transfers multisigId).isSome := by
  unfold markScanned
  split
  · rw [Option.isSome_map]
  · rfl

theorem markScanned_append (listed ids ids' : List Hash)
    (transfers : Hash → Option MultisigTransfer) :
    markScanned listed ids' (markScanned listed ids transfers) =
      markScanned listed (ids ++ ids') transfers := by
  funext multisigId
  have htwice : markSpent ∘ markSpent = markSpent := funext markSpent_markSpent
  simp only [markScanned, List.mem_append]
  by_cases hlisted : multisigId ∈ listed
  · simp [hlisted]
  · by_cases hfirst : multisigId ∈ ids
    · by_cases hsecond : multisigId ∈ ids'
      · simp [hlisted, hfirst, hsecond, htwice]
      · simp [hlisted, hfirst, hsecond]
    · simp [hlisted, hfirst]

/-- What a part of a scan has done to the wallet and to the ids of the pool; `ids` are the multisig
inputs that it has looked at. -/
structure Scanned (txs : List Transaction) (w w' : PoolWallet) (fromTxPool fromTxPool' ids : List Hash) :
    Prop where
  spentOnly : w.toIndexedWallet.SpentOnly w'.toIndexedWallet
  entries : ∀ e ∈ w'.unconfirmedEntries, e ∈ w.unconfirmedEntries ∨ e.2.tx ∈ txs
  history : w'.transferHistory = w.transferHistory
  listed : w'.unconfirmedMultisigTransfers = w.unconfirmedMultisigTransfers
  multisigs : w'.multisigTransfers =
    markScanned w.unconfirmedMultisigTransfers ids w.multisigTransfers
  fromTxPool : ∀ multisigId, multisigId ∈ fromTxPool' ↔
    multisigId ∈ fromTxPool ∨ multisigId ∈ ids ∧ (w.multisigTransfers multisigId).isSome = true

theorem Scanned.refl (txs : List Transaction) (w : PoolWallet) (fromTxPool : List Hash) :
    Scanned txs w w fromTxPool fromTxPool [] where
  spentOnly := IndexedWallet.SpentOnly.refl _
  entries := fun _ he => Or.inl he
  history := rfl
  listed := rfl
  multisigs := (markScanned_nil _ _).symm
  fromTxPool := by simp

theorem Scanned.trans {txs txs' : List Transaction} {pool pool' pool'' ids ids' : List Hash}
    (h : Scanned txs w w' pool pool' ids) (h' : Scanned txs' w' w'' pool' pool'' ids') :
    Scanned (txs ++ txs') w w'' pool pool'' (ids ++ ids') where
  spentOnly := h.spentOnly.trans h'.spentOnly
  entries := by
    intro e he
    rcases h'.entries e he with he | he
    · rcases h.entries e he with he | he
      · exact Or.inl he
      · exact Or.inr (List.mem_append_left _ he)
    · exact Or.inr (List.mem_append_right _ he)
  history := h'.history.trans h.history
  listed := h'.listed.trans h.listed
  multisigs := by
    rw [h'.multisigs, h.multisigs, h.listed]
    exact markScanned_append _ _ _ _
  fromTxPool := by
    intro multisigId
    rw [h'.fromTxPool, h.fromTxPool, h.multisigs, isSome_markScanned, List.mem_append]
    tauto

/-- Transfers that are marked, and entries for a transaction of the scan. -/
theorem Scanned.of_records {tx : Transaction} (fromTxPool : List Hash)
    (hspentOnly : w.toIndexedWallet.SpentOnly w'.toIndexedWallet)
    (hentries : ∀ e ∈ w'.unconfirmedEntries, e ∈ w.unconfirmedEntries ∨ e.2.tx = tx)
    (hhistory : w'.transferHistory = w.transferHistory)
    (hlisted : w'.unconfirmedMultisigTransfers = w.unconfirmedMultisigTransfers)
    (hmultisigs : w'.multisigTransfers = w.multisigTransfers) :
    Scanned [tx] w w' fromTxPool fromTxPool [] where
  spentOnly := hspentOnly
  entries := fun e he => (hentries e he).imp_right fun h => List.mem_singleton.mpr h
  history := hhistory
  listed := hlisted
  multisigs := hmultisigs.trans (markScanned_nil _ _).symm
  fromTxPool := by simp

theorem mem_putUnconfirmed {txHash : Hash} {wti : UnconfirmedTx} {e : Hash × UnconfirmedTx}
    (he : e ∈ (w.putUnconfirmed txHash wti).unconfirmedEntries) :
    e ∈ w.unconfirmedEntries ∨ e = (txHash, wti) := by
  rcases List.mem_append.mp he with he | he
  · exact Or.inl (List.mem_of_mem_filter he)
  · exact Or.inr (List.mem_singleton.mp he)

/-! ## One transaction of the pool -/

theorem scanned_scanInput (s : InputScan) (input : Txin) :
    ∃ ids, Scanned [] s.wallet (scanInput s input).1.wallet s.fromTxPool
      (scanInput s input).1.fromTxPool ids ∧
        ((scanInput s input).2 = true → ids = input.multisigOutId?.toList) := by
  cases input with
  | toKey input =>
      refine ⟨[], ?_, fun _ => rfl⟩
      unfold scanInput
      dsimp only
      split <;> exact Scanned.refl _ _ _
  | multisig input =>
      refine ⟨[input.multisigOutId], ?_, fun _ => rfl⟩
      unfold scanInput
      dsimp only
      split
      case h_1 hnone =>
        refine { Scanned.refl [] s.wallet s.fromTxPool with multisigs := ?_, fromTxPool := ?_ }
        · funext multisigId
          by_cases hid : multisigId = input.multisigOutId
          · simp [markScanned, hid, hnone]
          · simp [markScanned, hid]
        · intro multisigId
          by_cases hid : multisigId = input.multisigOutId
          · simp [hid, hnone]
          · simp [hid]
      case h_2 tdb hsome =>
        have hpool : ∀ multisigId, multisigId ∈ s.fromTxPool ++ [input.multisigOutId] ↔
            multisigId ∈ s.fromTxPool ∨ multisigId ∈ [input.multisigOutId] ∧
              (s.wallet.multisigTransfers multisigId).isSome = true := by
          intro multisigId
          by_cases hid : multisigId = input.multisigOutId
          · simp [hid, hsome]
          · simp [hid]
        split
        case isTrue hlisted =>
          refine { Scanned.refl [] s.wallet s.fromTxPool with multisigs := ?_, fromTxPool := hpool }
          funext multisigId
          by_cases hid : multisigId = input.multisigOutId
          · simp [markScanned, hid, hlisted]
          · simp [markScanned, hid]
        case isFalse hlisted =>
          refine ⟨IndexedWallet.SpentOnly.refl _, fun _ he => Or.inl he, rfl, rfl, ?_, hpool⟩
          funext multisigId
          by_cases hid : multisigId = input.multisigOutId
          · simp [markScanned, markMultisigSpent, markSpent, hid, hlisted, hsome]
          · simp [markScanned, markMultisigSpent, hid]
  | gen input => exact ⟨[], Scanned.refl _ _ _, fun _ => rfl⟩
  | htlc input => exact ⟨[], Scanned.refl _ _ _, fun _ => rfl⟩

theorem scanned_scanInputs (inputs : List Txin) (s : InputScan) :
    ∃ ids, Scanned [] s.wallet (scanInputs inputs s).1.wallet s.fromTxPool
      (scanInputs inputs s).1.fromTxPool ids ∧
        ((scanInputs inputs s).2 = true → ids = inputs.filterMap Txin.multisigOutId?) := by
  induction inputs generalizing s with
  | nil => exact ⟨[], Scanned.refl _ _ _, fun _ => rfl⟩
  | cons input rest ih =>
      obtain ⟨ids, hfirst, hids⟩ := scanned_scanInput s input
      unfold scanInputs
      split
      case h_1 next hnext =>
        rw [hnext] at hfirst hids
        obtain ⟨ids', hrest, hids'⟩ := ih next
        refine ⟨ids ++ ids', hfirst.trans hrest, ?_⟩
        intro hok
        rw [hids rfl, hids' hok, List.filterMap_cons]
        cases input.multisigOutId? <;> rfl
      case h_2 next hnext =>
        rw [hnext] at hfirst
        exact ⟨ids, hfirst, fun h => absurd h Bool.false_ne_true⟩

theorem scanned_recordIncome (tx : Transaction) (fromTxPool : List Hash) :
    Scanned [tx] w (recordIncome prims w tx) fromTxPool fromTxPool [] := by
  unfold recordIncome
  dsimp only
  split
  · exact Scanned.of_records _ (IndexedWallet.SpentOnly.refl _) (fun _ he => Or.inl he) rfl rfl rfl
  · apply Scanned.of_records
    · exact IndexedWallet.SpentOnly.of_rest rfl rfl
    · intro e he
      rcases mem_putUnconfirmed he with he | he
      · exact Or.inl he
      · exact Or.inr (he ▸ rfl)
    all_goals rfl

theorem scanned_recordSpend (tx : Transaction) (spendTransfers : List Nat) (fromTxPool : List Hash) :
    Scanned [tx] w (recordSpend prims w tx spendTransfers) fromTxPool fromTxPool [] := by
  unfold recordSpend
  dsimp only
  split
  · exact Scanned.of_records _ (IndexedWallet.SpentOnly.refl _) (fun _ he => Or.inl he) rfl rfl rfl
  · apply Scanned.of_records
    · exact (IndexedWallet.SpentOnly.markTransfersWithFlag _ _).trans
        (IndexedWallet.SpentOnly.of_rest rfl rfl)
    · intro e he
      rcases mem_putUnconfirmed he with he | he
      · exact Or.inl he
      · exact Or.inr (he ▸ rfl)
    all_goals rfl

/-- The scan before has recorded a transaction of this hash. -/
def recordedBefore (prims : PoolPrimitives) (before : List (Hash × Transaction)) (tx : Transaction) :
    Bool :=
  before.any fun e => e.1 = prims.getTransactionHash tx

/-- The multisig inputs of a transaction that a scan looks at. -/
def lookedAt (prims : PoolPrimitives) (before : List (Hash × Transaction)) (tx : Transaction) :
    List Hash :=
  if recordedBefore prims before tx then [] else multisigInputs tx

variable (prims) in
theorem scanned_scanTx (txExpirationTsMedian : Nat) (before : List (Hash × Transaction))
    (w : PoolWallet) (fromTxPool : List Hash) (tx : Transaction) :
    ∃ ids, Scanned [tx] w (scanTx prims txExpirationTsMedian before w fromTxPool tx).1.1 fromTxPool
      (scanTx prims txExpirationTsMedian before w fromTxPool tx).1.2 ids ∧
        ((scanTx prims txExpirationTsMedian before w fromTxPool tx).2 = true →
          ids = lookedAt prims before tx) := by
  unfold scanTx lookedAt recordedBefore
  split
  case h_1 e he =>
    have hany := List.any_eq_true.mpr ⟨e, List.mem_of_find?_eq_some he, List.find?_some he⟩
    refine ⟨[], Scanned.of_records _ (IndexedWallet.SpentOnly.refl _) (fun _ h => Or.inl h) rfl rfl rfl, fun _ => ?_⟩
    rw [if_pos hany]
  case h_2 hnone =>
    have hany : ¬ (before.any fun e => e.1 = prims.getTransactionHash tx) = true := by
      intro hany
      obtain ⟨e, he, heq⟩ := List.any_eq_true.mp hany
      exact List.find?_eq_none.mp hnone e he heq
    rw [if_neg hany]
    split
    · exact ⟨[], Scanned.refl _ _ _, fun h => absurd h Bool.false_ne_true⟩
    · split
      · exact ⟨[], Scanned.refl _ _ _, fun h => absurd h Bool.false_ne_true⟩
      case h_2 txMoneyGotInOuts _ =>
        obtain ⟨ids, hinputs, hids⟩ := scanned_scanInputs tx.vin ⟨w, fromTxPool, 0, [], false⟩
        split
        case h_1 s hs =>
          rw [hs] at hinputs
          refine ⟨ids, ?_, fun h => absurd h Bool.false_ne_true⟩
          simpa using hinputs.trans (Scanned.refl [tx] _ _)
        case h_2 s hs =>
          rw [hs] at hinputs hids
          refine ⟨ids, ?_, fun _ => hids rfl⟩
          have hrest : ∀ {v : PoolWallet}, Scanned [tx] s.wallet v s.fromTxPool s.fromTxPool [] →
              Scanned [tx] w v fromTxPool s.fromTxPool ids := by
            intro v hv
            simpa using hinputs.trans hv
          dsimp only
          split
          · exact hrest (scanned_recordIncome tx _)
          · split
            · exact hrest (scanned_recordSpend tx _ _)
            · exact hrest (Scanned.refl _ _ _)

variable (prims) in
theorem scanned_scanTxs (txExpirationTsMedian : Nat) (before : List (Hash × Transaction))
    (txs : List Transaction) (s : PoolWallet × List Hash) :
    ∃ ids, Scanned txs s.1 (scanTxs prims txExpirationTsMedian before txs s).1.1 s.2
      (scanTxs prims txExpirationTsMedian before txs s).1.2 ids ∧
        ((scanTxs prims txExpirationTsMedian before txs s).2 = true →
          ids = txs.flatMap (lookedAt prims before)) := by
  induction txs generalizing s with
  | nil => exact ⟨[], Scanned.refl _ _ _, fun _ => rfl⟩
  | cons tx rest ih =>
      obtain ⟨ids, hfirst, hids⟩ := scanned_scanTx prims txExpirationTsMedian before s.1 s.2 tx
      unfold scanTxs
      split
      case h_1 next hnext =>
        rw [hnext] at hfirst hids
        obtain ⟨ids', hrest, hids'⟩ := ih next
        refine ⟨ids ++ ids', hfirst.trans hrest, ?_⟩
        intro hok
        rw [hids rfl, hids' hok, List.flatMap_cons]
      case h_2 next hnext =>
        rw [hnext] at hfirst
        refine ⟨ids, ?_, fun h => absurd h Bool.false_ne_true⟩
        simpa using hfirst.trans (Scanned.refl rest _ _)

/-! ## What a scan records -/

/-- The entry of a transaction of the pool in `m_unconfirmed_in_transfers`. -/
def EntryOf (prims : PoolPrimitives) (before : List (Hash × Transaction)) (tx : Transaction)
    (e : Hash × Transaction) : Prop :=
  e = (prims.getTransactionHash tx, tx) ∨ e ∈ before ∧ e.1 = prims.getTransactionHash tx

/-- The entries that a scan adds are those of transactions of the pool, and one that the scan
before has recorded has its entry again. -/
structure Recorded (prims : PoolPrimitives) (before : List (Hash × Transaction))
    (txs : List Transaction) (added : List (Hash × Transaction)) : Prop where
  ofPool : ∀ e ∈ added, ∃ tx ∈ txs, EntryOf prims before tx e
  again : ∀ tx ∈ txs, recordedBefore prims before tx = true →
    ∃ e ∈ added, e ∈ before ∧ e.1 = prims.getTransactionHash tx

theorem scanInput_unconfirmedInTransfers (s : InputScan) (input : Txin) :
    (scanInput s input).1.wallet.unconfirmedInTransfers = s.wallet.unconfirmedInTransfers := by
  unfold scanInput
  split
  · split <;> rfl
  · split
    · rfl
    · dsimp only
      split <;> rfl
  · rfl

theorem scanInputs_unconfirmedInTransfers (inputs : List Txin) (s : InputScan) :
    (scanInputs inputs s).1.wallet.unconfirmedInTransfers = s.wallet.unconfirmedInTransfers := by
  induction inputs generalizing s with
  | nil => rfl
  | cons input rest ih =>
      have hfirst := scanInput_unconfirmedInTransfers s input
      unfold scanInputs
      split
      case h_1 next hnext =>
        rw [hnext] at hfirst
        exact (ih next).trans hfirst
      case h_2 next hnext =>
        rw [hnext] at hfirst
        exact hfirst

theorem recorded_scanTx {txExpirationTsMedian : Nat} {before : List (Hash × Transaction)}
    {fromTxPool : List Hash} {tx : Transaction}
    (hok : (scanTx prims txExpirationTsMedian before w fromTxPool tx).2 = true) :
    ∃ added, (scanTx prims txExpirationTsMedian before w fromTxPool tx).1.1.unconfirmedInTransfers =
      w.unconfirmedInTransfers ++ added ∧ Recorded prims before [tx] added := by
  unfold scanTx at hok ⊢
  split
  case h_1 e he =>
    have hmem := List.mem_of_find?_eq_some he
    have hhash : e.1 = prims.getTransactionHash tx := by simpa using List.find?_some he
    refine ⟨[e], rfl, ?_, ?_⟩
    · intro e' he'
      rw [List.mem_singleton.mp he']
      exact ⟨tx, List.mem_singleton_self tx, Or.inr ⟨hmem, hhash⟩⟩
    · intro tx' htx' _
      rw [List.mem_singleton.mp htx']
      exact ⟨e, List.mem_singleton_self e, hmem, hhash⟩
  case h_2 hnone =>
    -- the transaction was not recorded before, so nothing is asked of an old record
    have hnew : ∀ tx' ∈ [tx], recordedBefore prims before tx' = true → ∀ {P : Prop}, P := by
      intro tx' htx' hany
      rw [List.mem_singleton.mp htx'] at hany
      obtain ⟨e, he, heq⟩ := List.any_eq_true.mp hany
      exact absurd heq (List.find?_eq_none.mp hnone e he)
    -- what a recorded transaction and one that is passed over leave
    have hone : Recorded prims before [tx] [(prims.getTransactionHash tx, tx)] := by
      refine ⟨?_, fun tx' htx' h => hnew tx' htx' h⟩
      intro e he
      rw [List.mem_singleton.mp he]
      exact ⟨tx, List.mem_singleton_self tx, Or.inl rfl⟩
    have hno : Recorded prims before [tx] [] :=
      ⟨fun e he => absurd he List.not_mem_nil, fun tx' htx' h => hnew tx' htx' h⟩
    rw [hnone] at hok
    dsimp only at hok ⊢
    split
    case isTrue hextra =>
      rw [if_pos hextra] at hok
      exact absurd hok Bool.false_ne_true
    case isFalse hextra =>
      rw [if_neg hextra] at hok
      split
      case h_1 houts =>
        rw [houts] at hok
        exact absurd hok Bool.false_ne_true
      case h_2 txMoneyGotInOuts houts =>
        rw [houts] at hok
        dsimp only at hok
        have hinputs := scanInputs_unconfirmedInTransfers tx.vin ⟨w, fromTxPool, 0, [], false⟩
        split
        case h_1 s hs =>
          rw [hs] at hok
          exact absurd hok Bool.false_ne_true
        case h_2 s hs =>
          rw [hs] at hinputs
          dsimp only at hinputs ⊢
          split
          · refine ⟨_, ?_, hone⟩
            unfold recordIncome
            dsimp only
            rw [← hinputs]
            split <;> rfl
          · split
            · refine ⟨_, ?_, hone⟩
              unfold recordSpend
              dsimp only
              rw [← hinputs]
              split <;> rfl
            · exact ⟨[], by rw [hinputs, List.append_nil], hno⟩

theorem recorded_scanTxs {txExpirationTsMedian : Nat} {before : List (Hash × Transaction)}
    {txs : List Transaction} {s : PoolWallet × List Hash}
    (hok : (scanTxs prims txExpirationTsMedian before txs s).2 = true) :
    ∃ added, (scanTxs prims txExpirationTsMedian before txs s).1.1.unconfirmedInTransfers =
      s.1.unconfirmedInTransfers ++ added ∧ Recorded prims before txs added := by
  induction txs generalizing s with
  | nil => exact ⟨[], (List.append_nil _).symm, nofun, nofun⟩
  | cons tx rest ih =>
      unfold scanTxs at hok ⊢
      split
      case h_2 next hnext =>
        rw [hnext] at hok
        exact absurd hok Bool.false_ne_true
      case h_1 next hnext =>
        rw [hnext] at hok
        have hfirst : (scanTx prims txExpirationTsMedian before s.1 s.2 tx).2 = true := by rw [hnext]
        obtain ⟨first, hfirst, hone⟩ := recorded_scanTx hfirst
        obtain ⟨added, hadded, hrest⟩ := ih hok
        rw [hnext] at hfirst
        refine ⟨first ++ added, ?_, ?_, ?_⟩
        · rw [hadded, hfirst, List.append_assoc]
        · intro e he
          rcases List.mem_append.mp he with he | he
          · obtain ⟨tx', htx', hentry⟩ := hone.ofPool e he
            exact ⟨tx', List.mem_cons.mpr (Or.inl (List.mem_singleton.mp htx')), hentry⟩
          · obtain ⟨tx', htx', hentry⟩ := hrest.ofPool e he
            exact ⟨tx', List.mem_cons_of_mem tx htx', hentry⟩
        · intro tx' htx' hbefore
          rcases List.mem_cons.mp htx' with rfl | htx'
          · obtain ⟨e, he, hentry⟩ := hone.again tx' (List.mem_singleton_self tx') hbefore
            exact ⟨e, List.mem_append_left _ he, hentry⟩
          · obtain ⟨e, he, hentry⟩ := hrest.again tx' htx' hbefore
            exact ⟨e, List.mem_append_right _ he, hentry⟩

/-! ## Key images and marks -/

/-- No input has the null key image. -/
def RealInputs (tx : Transaction) : Prop :=
  ∀ input, Txin.toKey input ∈ tx.vin → input.kImage ≠ nullKi

/-- The key image of a transfer is not known, or is the one of its output. -/
def HasOwnKeyImage (keyImageOf : Transaction → Nat → KeyImage) (td : IndexedTransfer) : Prop :=
  td.keyImage = nullKi ∨ td.keyImage = keyImageOf td.tx td.internalOutputIndex

/-- A multisig transfer that is marked, if no block has spent it. -/
def MarkedMultisig (transfers : Hash → Option MultisigTransfer) (multisigId : Hash) : Prop :=
  ∃ tdb, transfers multisigId = some tdb ∧ (tdb.spentHeight = 0 → tdb.isSpent = true)

structure Sound (keyImageOf : Transaction → Nat → KeyImage) (w : PoolWallet) : Prop where
  transfers : w.toIndexedWallet.Everywhere (HasOwnKeyImage keyImageOf)
  entries : ∀ e ∈ w.unconfirmedEntries, RealInputs e.2.tx
  history : ∀ wti ∈ w.transferHistory, RealInputs wti.tx
  listed : ∀ multisigId ∈ w.unconfirmedMultisigTransfers,
    MarkedMultisig w.multisigTransfers multisigId

/-- What the wallet is given is what it takes it for: key images are those of their outputs, and a
hash that the last scan has recorded belongs to the same transaction.  A proposal is accepted
before its multisig output is in a transaction. -/
def Regular (prims : PoolPrimitives) (keyImageOf : Transaction → Nat → KeyImage) (w : PoolWallet) :
    Event → Prop
  | .processNewTransaction _ _ t =>
      RealInputs t.tx ∧
        ∀ out ∈ t.outs, out.keyImage = nullKi ∨ out.keyImage = keyImageOf t.tx out.o
  | .send tx _ | .submitTransfer tx _ => RealInputs tx
  | .acceptProposal contractId _ _ _ => contractId ∉ w.unconfirmedMultisigTransfers
  | .associateKeyImage transferIndex keyImage =>
      ∀ td, w.transfers[transferIndex]? = some td →
        keyImage = keyImageOf td.tx td.internalOutputIndex
  | .scanTxPool txs _ =>
      ∀ tx ∈ txs, RealInputs tx ∧ ∀ e ∈ w.unconfirmedInTransfers,
        e.1 = prims.getTransactionHash tx → e.2.vin = tx.vin
  | _ => True

theorem MarkedMultisig.spendMultisigs {transfers : Hash → Option MultisigTransfer} {multisigId : Hash}
    (h : MarkedMultisig transfers multisigId) (height : Nat) (inputs : List Txin) :
    MarkedMultisig (spendMultisigs height inputs transfers) multisigId := by
  obtain ⟨tdb, htdb, hmarked⟩ := h
  unfold PoolWallet.spendMultisigs MarkedMultisig
  dsimp only
  split
  · refine ⟨_, by rw [htdb, Option.map_some], fun _ => ?_⟩
    exact markSpent_isSpent tdb
  · exact ⟨tdb, htdb, hmarked⟩

theorem MarkedMultisig.receiveMultisig {transfers : Hash → Option MultisigTransfer}
    {multisigId : Hash} (h : MarkedMultisig transfers multisigId) (height : Nat) (tx : Transaction)
    (o : Nat) : MarkedMultisig (receiveMultisig prims height tx transfers o) multisigId := by
  obtain ⟨tdb, htdb, hmarked⟩ := h
  unfold PoolWallet.receiveMultisig MarkedMultisig
  dsimp only
  rw [Function.update_apply]
  split
  case isTrue heq =>
    rw [← heq, htdb]
    exact ⟨_, rfl, hmarked⟩
  case isFalse => exact ⟨tdb, htdb, hmarked⟩

theorem MarkedMultisig.receiveMultisigs {transfers : Hash → Option MultisigTransfer}
    {multisigId : Hash} (h : MarkedMultisig transfers multisigId) (height : Nat) (tx : Transaction)
    (outs : List Nat) :
    MarkedMultisig (outs.foldl (PoolWallet.receiveMultisig prims height tx) transfers) multisigId := by
  induction outs generalizing transfers with
  | nil => exact h
  | cons o outs ih => exact ih (h.receiveMultisig height tx o)

namespace Sound

/-- Transfers, entries and the history have changed, and no multisig transfer. -/
theorem keepMultisigs (h : Sound keyImageOf w)
    (htransfers : w'.toIndexedWallet.Everywhere (HasOwnKeyImage keyImageOf))
    (hentries : ∀ e ∈ w'.unconfirmedEntries, RealInputs e.2.tx)
    (hhistory : ∀ wti ∈ w'.transferHistory, RealInputs wti.tx)
    (hmultisigs : w'.multisigTransfers = w.multisigTransfers)
    (hlisted : w'.unconfirmedMultisigTransfers = w.unconfirmedMultisigTransfers) :
    Sound keyImageOf w' where
  transfers := htransfers
  entries := hentries
  history := hhistory
  listed := by
    rw [hmultisigs, hlisted]
    exact h.listed

theorem withTransfers (h : Sound keyImageOf w) {v : IndexedWallet}
    (hv : v.Everywhere (HasOwnKeyImage keyImageOf)) :
    Sound keyImageOf { w with toIndexedWallet := v } :=
  h.keepMultisigs hv h.entries h.history rfl rfl

theorem putUnconfirmed (h : Sound keyImageOf w) (txHash : Hash) {wti : UnconfirmedTx}
    (hwti : RealInputs wti.tx) : Sound keyImageOf (w.putUnconfirmed txHash wti) := by
  refine h.keepMultisigs (h.transfers.of_transfers rfl) ?_ h.history rfl rfl
  intro e he
  rcases mem_putUnconfirmed he with he | rfl
  · exact h.entries e he
  · exact hwti

theorem processNewTransaction (h : Sound keyImageOf w) {height timestamp : Nat}
    {t : ReceivedTransaction} (hinputs : RealInputs t.tx)
    (houts : ∀ out ∈ t.outs, out.keyImage = nullKi ∨ out.keyImage = keyImageOf t.tx out.o) :
    Sound keyImageOf (processNewTransaction prims w height timestamp t) where
  transfers := h.transfers.processNewTransaction _ houts
  entries := fun e he => h.entries e (List.mem_of_mem_filter he)
  history := by
    intro wti hwti
    rcases List.mem_append.mp hwti with hwti | hwti
    · exact h.history wti hwti
    · obtain ⟨isIncome, _, rfl⟩ := List.mem_map.mp hwti
      exact hinputs
  listed := fun multisigId hid =>
    ((h.listed multisigId hid).spendMultisigs height _).receiveMultisigs height t.tx _

variable (prims) in
theorem unconfirm (h : Sound keyImageOf w) {wti : UnconfirmedTx} (hwti : RealInputs wti.tx) :
    Sound keyImageOf (unconfirm prims w wti) := by
  unfold PoolWallet.unconfirm
  dsimp only
  split
  · exact h
  · exact h.putUnconfirmed _ hwti

variable (prims) in
theorem unconfirms (h : Sound keyImageOf w) {entries : List UnconfirmedTx}
    (hentries : ∀ wti ∈ entries, RealInputs wti.tx) :
    Sound keyImageOf (entries.foldl (PoolWallet.unconfirm prims) w) := by
  induction entries generalizing w with
  | nil => exact h
  | cons wti entries ih =>
      obtain ⟨hhead, htail⟩ := List.forall_mem_cons.mp hentries
      exact ih (h.unconfirm prims hhead) htail

theorem detachBlockchain (h : Sound keyImageOf w) (includingHeight : Nat) :
    Sound keyImageOf (detachBlockchain prims w includingHeight) := by
  have hdetached := h.withTransfers
    (h.transfers.detachBlockchain prims.getTransactionHash includingHeight)
  unfold PoolWallet.detachBlockchain
  dsimp only
  split
  · exact hdetached
  · have hgone : ∀ n, ∀ wti ∈ w.transferHistory.drop n, RealInputs wti.tx :=
      fun n wti hwti => h.history wti (List.mem_of_mem_drop hwti)
    have hback := fun n => hdetached.unconfirms prims (hgone n)
    refine (hback _).keepMultisigs (hback _).transfers (hback _).entries ?_ rfl rfl
    intro wti hwti
    exact h.history wti ((List.rdropWhile_prefix _ _).subset hwti)

theorem acceptProposal (h : Sound keyImageOf w) {contractId : Hash}
    (hnew : contractId ∉ w.unconfirmedMultisigTransfers) (template : Transaction) (n : Nat)
    (thrown : Bool) : Sound keyImageOf (acceptProposal w contractId template n thrown) where
  transfers := h.transfers
  entries := h.entries
  history := h.history
  listed := by
    intro multisigId hid
    obtain ⟨tdb, htdb, hmarked⟩ := h.listed multisigId hid
    have hne : multisigId ≠ contractId := by
      rintro rfl
      exact hnew hid
    exact ⟨tdb, (Function.update_of_ne hne _ _).trans htdb, hmarked⟩

theorem associateKeyImage (h : Sound keyImageOf w) {transferIndex : Nat} {keyImage : KeyImage}
    (hkey : ∀ td, w.transfers[transferIndex]? = some td →
      keyImage = keyImageOf td.tx td.internalOutputIndex) :
    (w.toIndexedWallet.associateKeyImage transferIndex keyImage).Everywhere
      (HasOwnKeyImage keyImageOf) := by
  unfold IndexedWallet.associateKeyImage
  split
  · intro td' htd'
    obtain ⟨i, hi⟩ := List.mem_iff_getElem?.mp htd'
    rw [List.getElem?_modify] at hi
    obtain ⟨td, htd, heq⟩ := Option.map_eq_some_iff.mp hi
    by_cases hindex : transferIndex = i
    · rw [if_pos hindex] at heq
      subst hindex heq
      exact Or.inr (hkey td htd)
    · rw [if_neg hindex] at heq
      subst heq
      exact h.transfers td (List.mem_of_getElem? htd)
  · exact h.transfers

/-- A part of a scan; what is listed was looked at by the scan before. -/
theorem scanned (h : Sound keyImageOf w) {txs : List Transaction} {pool pool' ids : List Hash}
    (hscan : Scanned txs w w' pool pool' ids) (htxs : ∀ tx ∈ txs, RealInputs tx) :
    Sound keyImageOf w' where
  transfers := h.transfers.of_spentOnly hscan.spentOnly
  entries := by
    intro e he
    rcases hscan.entries e he with he | he
    · exact h.entries e he
    · exact htxs _ he
  history := hscan.history ▸ h.history
  listed := by
    intro multisigId hid
    rw [hscan.listed] at hid
    rw [hscan.multisigs]
    unfold MarkedMultisig markScanned
    rw [if_neg fun hmark => hmark.2 hid]
    exact h.listed multisigId hid

end Sound

/-! ## After a scan of the pool -/

/-- The scan looks at a transaction that spends the multisig output. -/
def LookedAt (prims : PoolPrimitives) (w : PoolWallet) (txs : List Transaction) (multisigId : Hash) :
    Prop :=
  ∃ tx ∈ txs, recordedBefore prims w.unconfirmedInTransfers tx = false ∧
    multisigId ∈ multisigInputs tx

theorem mem_flatMap_lookedAt {txs : List Transaction} {multisigId : Hash} :
    multisigId ∈ txs.flatMap (lookedAt prims w.unconfirmedInTransfers) ↔
      LookedAt prims w txs multisigId := by
  simp only [List.mem_flatMap, lookedAt, LookedAt]
  apply exists_congr
  intro tx
  cases recordedBefore prims w.unconfirmedInTransfers tx <;> simp

theorem LookedAt.spentInPool {txs : List Transaction} {multisigId : Hash}
    (h : LookedAt prims w txs multisigId) : SpentInPool txs multisigId := by
  obtain ⟨tx, htx, _, hid⟩ := h
  exact ⟨tx, htx, hid⟩

/-- What is recorded of a pool spends what the pool spends, but for what was looked at. -/
theorem Recorded.multisigInputs_iff {txs : List Transaction} {added : List (Hash × Transaction)}
    (h : Recorded prims w.unconfirmedInTransfers txs added)
    (hvin : ∀ tx ∈ txs, ∀ e ∈ w.unconfirmedInTransfers, e.1 = prims.getTransactionHash tx →
      e.2.vin = tx.vin) {multisigId : Hash} (hlooked : ¬ LookedAt prims w txs multisigId) :
    multisigId ∈ (added.flatMap fun e => multisigInputs e.2) ↔ SpentInPool txs multisigId := by
  constructor
  · intro hid
    obtain ⟨e, he, hid⟩ := List.mem_flatMap.mp hid
    obtain ⟨tx, htx, hentry⟩ := h.ofPool e he
    refine ⟨tx, htx, ?_⟩
    rcases hentry with rfl | ⟨hbefore, hhash⟩
    · exact hid
    · unfold multisigInputs at hid ⊢
      rw [← hvin tx htx e hbefore hhash]
      exact hid
  · intro hspent
    obtain ⟨tx, htx, hid⟩ := hspent
    have hrecorded : recordedBefore prims w.unconfirmedInTransfers tx = true := by
      by_contra hnot
      exact hlooked ⟨tx, htx, Bool.not_eq_true _ ▸ hnot, hid⟩
    obtain ⟨e, he, hbefore, hhash⟩ := h.again tx htx hrecorded
    refine List.mem_flatMap.mpr ⟨e, he, ?_⟩
    unfold multisigInputs at hid ⊢
    rw [hvin tx htx e hbefore hhash]
    exact hid

/-- The mark of a multisig output that has vanished from the pool. -/
def clearVanishedMark (tdb : MultisigTransfer) : MultisigTransfer :=
  if tdb.isSpent ∧ tdb.spentHeight = 0 then
    { tdb with flags := tdb.flags &&& ~~~walletTransferDetailFlagSpent }
  else tdb

theorem clearVanishedMark_isSpent {tdb : MultisigTransfer}
    (h : (clearVanishedMark tdb).spentHeight = 0) : (clearVanishedMark tdb).isSpent = false := by
  unfold clearVanishedMark at h ⊢
  split
  case isTrue =>
    have hbit : tdb.flags &&& ~~~1#32 &&& 1#32 = 0#32 := by
      rw [BitVec.and_assoc]
      simp
    simp only [MultisigTransfer.isSpent, bne_eq_false_iff_eq]
    exact hbit
  case isFalse hnot =>
    rw [if_neg hnot] at h
    cases hspent : tdb.isSpent
    · rfl
    · exact absurd ⟨hspent, h⟩ hnot

/-- A scan without an exception has looked at what it had not recorded, and clears what has
vanished. -/
theorem exists_scanned {txs : List Transaction} {txExpirationTsMedian : Nat}
    (hok : (scanTxPool prims w txs txExpirationTsMedian).2 = true) :
    ∃ v fromTxPool, scanTxPool prims w txs txExpirationTsMedian = (v.clearVanished fromTxPool, true) ∧
      Scanned txs { w with unconfirmedInTransfers := [] } v [] fromTxPool
        (txs.flatMap (lookedAt prims w.unconfirmedInTransfers)) ∧
      Recorded prims w.unconfirmedInTransfers txs v.unconfirmedInTransfers := by
  obtain ⟨ids, hscan, hids⟩ := scanned_scanTxs prims txExpirationTsMedian w.unconfirmedInTransfers txs
    ({ w with unconfirmedInTransfers := [] }, [])
  unfold scanTxPool at hok ⊢
  split
  case h_1 hfail =>
    rw [hfail] at hok
    exact absurd hok Bool.false_ne_true
  case h_2 v fromTxPool hscanned =>
    have htxs := congrArg Prod.snd hscanned
    obtain ⟨added, hadded, hrecorded⟩ := recorded_scanTxs htxs
    rw [hscanned] at hscan hids hadded
    rw [hids rfl] at hscan
    rw [List.nil_append] at hadded
    exact ⟨v, fromTxPool, rfl, hscan, hadded ▸ hrecorded⟩

section AfterScan

variable {txs : List Transaction} {txExpirationTsMedian : Nat} {multisigId : Hash}

theorem scanTxPool_of_lookedAt (hok : (scanTxPool prims w txs txExpirationTsMedian).2 = true)
    (hlooked : LookedAt prims w txs multisigId) :
    (scanTxPool prims w txs txExpirationTsMedian).1.multisigTransfers multisigId =
      if multisigId ∈ w.unconfirmedMultisigTransfers then w.multisigTransfers multisigId
      else (w.multisigTransfers multisigId).map markSpent := by
  obtain ⟨v, fromTxPool, hscan, hscanned, _⟩ := exists_scanned hok
  have hmem := mem_flatMap_lookedAt.mpr hlooked
  have hafter : v.multisigTransfers multisigId =
      if multisigId ∈ w.unconfirmedMultisigTransfers then w.multisigTransfers multisigId
      else (w.multisigTransfers multisigId).map markSpent := by
    rw [hscanned.multisigs, markScanned]
    by_cases hlisted : multisigId ∈ w.unconfirmedMultisigTransfers
    · simp [hlisted]
    · simp [hlisted, hmem]
  rw [hscan, ← hafter]
  simp only [clearVanished]
  split
  case isTrue hvanished =>
    -- an id that is not known has not vanished either
    cases hnone : w.multisigTransfers multisigId with
    | none => rw [hafter, hnone]; split <;> rfl
    | some tdb =>
        refine absurd ?_ hvanished.2.1
        rw [hscanned.fromTxPool]
        exact Or.inr ⟨hmem, by rw [hnone]; rfl⟩
  case isFalse => rfl

theorem scanTxPool_of_not_lookedAt
    (hok : (scanTxPool prims w txs txExpirationTsMedian).2 = true)
    (hvin : ∀ tx ∈ txs, ∀ e ∈ w.unconfirmedInTransfers, e.1 = prims.getTransactionHash tx →
      e.2.vin = tx.vin) (hlooked : ¬ LookedAt prims w txs multisigId) :
    (scanTxPool prims w txs txExpirationTsMedian).1.multisigTransfers multisigId =
      if multisigId ∈ w.unconfirmedMultisigTransfers ∧ ¬ SpentInPool txs multisigId then
        (w.multisigTransfers multisigId).map clearVanishedMark
      else w.multisigTransfers multisigId := by
  obtain ⟨v, fromTxPool, hscan, hscanned, hrecorded⟩ := exists_scanned hok
  have hmem : multisigId ∉ txs.flatMap (lookedAt prims w.unconfirmedInTransfers) :=
    fun h => hlooked (mem_flatMap_lookedAt.mp h)
  have hafter : v.multisigTransfers multisigId = w.multisigTransfers multisigId := by
    rw [hscanned.multisigs, markScanned, if_neg fun h => hmem h.1]
  have hpool : multisigId ∉ fromTxPool := by
    rw [hscanned.fromTxPool]
    exact fun h => h.elim List.not_mem_nil fun h => hmem h.1
  have hinputs := hrecorded.multisigInputs_iff hvin hlooked
  rw [hscan]
  simp only [clearVanished, hafter, hpool, hinputs, hscanned.listed, not_false_eq_true, true_and]
  rfl

end AfterScan

/-! ## What a scan relies on -/

/-- A multisig output that the pool spends only by transactions which the scan before has recorded
is marked, and one that is marked and not spent by the pool is among those of the last pool. -/
def MultisigsTracked (prims : PoolPrimitives) (w : PoolWallet) (txs : List Transaction) : Prop :=
  ∀ multisigId tdb, w.multisigTransfers multisigId = some tdb → tdb.spentHeight = 0 →
    (SpentInPool txs multisigId → ¬ LookedAt prims w txs multisigId → tdb.isSpent = true) ∧
      (tdb.isSpent = true → ¬ SpentInPool txs multisigId →
        multisigId ∈ w.unconfirmedMultisigTransfers)

/-- The scan of the pool leaves what it should exactly if it finds what it relies on. -/
theorem Sound.followsPool_iff (h : Sound keyImageOf w) {txs : List Transaction}
    {txExpirationTsMedian : Nat} (hok : (scanTxPool prims w txs txExpirationTsMedian).2 = true)
    (hvin : ∀ tx ∈ txs, ∀ e ∈ w.unconfirmedInTransfers, e.1 = prims.getTransactionHash tx →
      e.2.vin = tx.vin) :
    FollowsPool (scanTxPool prims w txs txExpirationTsMedian).1 txs ↔
      MultisigsTracked prims w txs := by
  constructor
  · intro hfollows multisigId tdb htdb hheight
    constructor
    · intro hspent hlooked
      have hafter := scanTxPool_of_not_lookedAt hok hvin hlooked
      rw [if_neg fun hcleared => hcleared.2 hspent, htdb] at hafter
      exact (hfollows multisigId tdb hafter hheight).mpr hspent
    · intro hmarked hspent
      by_contra hlisted
      have hafter := scanTxPool_of_not_lookedAt hok hvin fun hlooked => hspent hlooked.spentInPool
      rw [if_neg fun hcleared => hlisted hcleared.1, htdb] at hafter
      exact hspent ((hfollows multisigId tdb hafter hheight).mp hmarked)
  · intro htracked multisigId tdb htdb hheight
    by_cases hlooked : LookedAt prims w txs multisigId
    · -- marked now, or by an earlier scan
      refine iff_of_true ?_ hlooked.spentInPool
      rw [scanTxPool_of_lookedAt hok hlooked] at htdb
      split at htdb
      case isTrue hlisted =>
        obtain ⟨tdb', htdb', hmarked⟩ := h.listed multisigId hlisted
        rw [htdb] at htdb'
        cases htdb'
        exact hmarked hheight
      case isFalse =>
        obtain ⟨before, _, rfl⟩ := Option.map_eq_some_iff.mp htdb
        exact markSpent_isSpent before
    · rw [scanTxPool_of_not_lookedAt hok hvin hlooked] at htdb
      split at htdb
      case isTrue hvanished =>
        obtain ⟨before, _, rfl⟩ := Option.map_eq_some_iff.mp htdb
        exact iff_of_false (by simp [clearVanishedMark_isSpent hheight]) hvanished.2
      case isFalse hkept =>
        obtain ⟨hrecorded, hflagged⟩ := htracked multisigId tdb htdb hheight
        constructor
        · intro hmarked
          by_contra hspent
          exact hkept ⟨hflagged hmarked hspent, hspent⟩
        · exact fun hspent => hrecorded hspent hlooked

/-- The transactions that are too old. -/
def removed (w : PoolWallet) (txExpirationTsMedian : Nat) : List (Hash × UnconfirmedTx) :=
  w.unconfirmedEntries.filter fun e => w.outdated txExpirationTsMedian e.2

/-- The transactions that are left. -/
def left (w : PoolWallet) (txExpirationTsMedian : Nat) : List (Hash × UnconfirmedTx) :=
  w.unconfirmedEntries.filter fun e => !w.outdated txExpirationTsMedian e.2

/-- A transfer whose output is spent by a transaction that is left is marked, is not among the
transfers of one that is removed, and is known to be spent by its key image. -/
def TransfersTracked (keyImageOf : Transaction → Nat → KeyImage) (w : PoolWallet)
    (txExpirationTsMedian : Nat) : Prop :=
  ∀ i td, w.transfers[i]? = some td → Unsettled td →
    (∃ e ∈ w.left txExpirationTsMedian, Spends keyImageOf e.2.tx td) →
      MarkedSpent td ∧ (∀ e ∈ w.removed txExpirationTsMedian, i ∉ e.2.selectedIndicies) ∧
        knownSpent (w.left txExpirationTsMedian) td = true

theorem not_markedSpent_clearSpent (td : IndexedTransfer) : ¬ MarkedSpent (clearSpent td) := by
  apply not_not.mpr
  change td.flags &&& ~~~walletTransferDetailFlagSpent &&& walletTransferDetailFlagSpent = 0
  rw [BitVec.and_assoc]
  simp [walletTransferDetailFlagSpent]

theorem unsettled_clearSpent (td : IndexedTransfer) : Unsettled (clearSpent td) ↔ Unsettled td := by
  have hbits : td.flags &&& ~~~walletTransferDetailFlagSpent &&&
      walletTransferDetailFlagEscrowProposalReservation =
        td.flags &&& walletTransferDetailFlagEscrowProposalReservation := by
    rw [BitVec.and_assoc]
    congr 1
  unfold Unsettled
  refine and_congr Iff.rfl (and_congr Iff.rfl ?_)
  rw [← hbits]
  rfl

/-- A transfer after the removal of what is too old. -/
def afterRemoval (w : PoolWallet) (txExpirationTsMedian i : Nat) (td : IndexedTransfer) :
    IndexedTransfer :=
  if ((w.removed txExpirationTsMedian).any fun e => i ∈ e.2.selectedIndicies) ∧
    td.spentHeight = 0 then clearSpent td else td

/-- What `scan_unconfirmed_outdate_tx` makes of a transfer. -/
def afterIdle (w : PoolWallet) (txExpirationTsMedian i : Nat) (td : IndexedTransfer) :
    IndexedTransfer :=
  let td := w.afterRemoval txExpirationTsMedian i td
  if looksSpent td && !knownSpent (w.left txExpirationTsMedian) td then clearSpent td else td

theorem scanUnconfirmedOutdateTx_getElem? (w : PoolWallet) (txExpirationTsMedian i : Nat) :
    (w.scanUnconfirmedOutdateTx txExpirationTsMedian).transfers[i]? =
      (w.transfers[i]?).map (w.afterIdle txExpirationTsMedian i) :=
  List.getElem?_mapIdx

section AfterIdle

variable {txExpirationTsMedian i : Nat} {td : IndexedTransfer}

theorem unsettled_afterIdle : Unsettled (w.afterIdle txExpirationTsMedian i td) ↔ Unsettled td := by
  unfold afterIdle afterRemoval
  dsimp only
  split_ifs <;> simp only [unsettled_clearSpent]

theorem spends_afterIdle {tx : Transaction} :
    Spends keyImageOf tx (w.afterIdle txExpirationTsMedian i td) ↔ Spends keyImageOf tx td := by
  unfold afterIdle afterRemoval
  dsimp only
  split_ifs <;> rfl

theorem fixed_afterIdle : (w.afterIdle txExpirationTsMedian i td).fixed = td.fixed := by
  unfold afterIdle afterRemoval
  dsimp only
  split_ifs <;> rfl

theorem looksSpent_iff : looksSpent td = true ↔ MarkedSpent td ∧ Unsettled td := by
  unfold looksSpent MarkedSpent Unsettled
  simp only [Bool.and_eq_true, bne_iff_ne, beq_iff_eq]
  tauto

/-- A transfer in no block stays marked exactly if no removed transaction has selected it, and one
that is left spends its key image. -/
theorem markedSpent_afterIdle (htd : Unsettled td) :
    MarkedSpent (w.afterIdle txExpirationTsMedian i td) ↔
      MarkedSpent td ∧ (∀ e ∈ w.removed txExpirationTsMedian, i ∉ e.2.selectedIndicies) ∧
        knownSpent (w.left txExpirationTsMedian) td = true := by
  have hany : ((w.removed txExpirationTsMedian).any fun e => i ∈ e.2.selectedIndicies) = true ↔
      ∃ e ∈ w.removed txExpirationTsMedian, i ∈ e.2.selectedIndicies := by simp
  by_cases hselected : ∃ e ∈ w.removed txExpirationTsMedian, i ∈ e.2.selectedIndicies
  · have hremoval : w.afterRemoval txExpirationTsMedian i td = clearSpent td :=
      if_pos ⟨hany.mpr hselected, htd.2.1⟩
    have hnot := not_markedSpent_clearSpent td
    refine iff_of_false ?_ fun h => ?_
    · unfold afterIdle
      rw [hremoval]
      dsimp only
      split
      · exact not_markedSpent_clearSpent _
      · exact hnot
    · obtain ⟨e, he, hi⟩ := hselected
      exact h.2.1 e he hi
  · have hnone : ∀ e ∈ w.removed txExpirationTsMedian, i ∉ e.2.selectedIndicies :=
      fun e he hi => hselected ⟨e, he, hi⟩
    have hremoval : w.afterRemoval txExpirationTsMedian i td = td :=
      if_neg fun h => hselected (hany.mp h.1)
    unfold afterIdle
    rw [hremoval]
    dsimp only
    cases hknown : knownSpent (w.left txExpirationTsMedian) td with
    | true =>
        rw [Bool.not_true, Bool.and_false, if_neg Bool.false_ne_true]
        exact ⟨fun h => ⟨h, hnone, rfl⟩, And.left⟩
    | false =>
        simp only [Bool.not_false, Bool.and_true, Bool.false_eq_true, and_false, iff_false]
        split
        · exact not_markedSpent_clearSpent td
        case isFalse hmarked => exact fun h => hmarked (looksSpent_iff.mpr ⟨h, htd⟩)

/-- A key image that a real input spends is that of the output. -/
theorem Sound.spends_of_knownSpent (h : Sound keyImageOf w) (htd : w.transfers[i]? = some td)
    (hknown : knownSpent (w.left txExpirationTsMedian) td = true) :
    ∃ e ∈ w.left txExpirationTsMedian, Spends keyImageOf e.2.tx td := by
  obtain ⟨e, he, hspends⟩ := List.any_eq_true.mp hknown
  obtain ⟨input, hinput, heq⟩ := List.any_eq_true.mp (Bool.and_eq_true_iff.mp hspends).2
  cases input with
  | toKey input =>
      have hkey : input.kImage = td.keyImage := by simpa using heq
      have hreal := h.entries e (List.mem_of_mem_filter he) input hinput
      rcases h.transfers td (List.mem_of_getElem? htd) with hnull | hown
      · exact absurd (hkey.trans hnull) hreal
      · exact ⟨e, he, input, hinput, hkey.trans hown⟩
  | gen | multisig | htlc => exact absurd heq Bool.false_ne_true

end AfterIdle

/-- The idle scan leaves what it should exactly if it finds what it relies on. -/
theorem Sound.followsUnconfirmed_iff (h : Sound keyImageOf w) (txExpirationTsMedian : Nat) :
    FollowsUnconfirmed keyImageOf (w.scanUnconfirmedOutdateTx txExpirationTsMedian) ↔
      TransfersTracked keyImageOf w txExpirationTsMedian := by
  constructor
  · intro hfollows i td htd hunsettled hspends
    have hmem : w.afterIdle txExpirationTsMedian i td ∈
        (w.scanUnconfirmedOutdateTx txExpirationTsMedian).transfers := by
      apply List.mem_of_getElem?
      rw [scanUnconfirmedOutdateTx_getElem?, htd]
      rfl
    have hafter := hfollows _ hmem (unsettled_afterIdle.mpr hunsettled)
    simp only [spends_afterIdle] at hafter
    exact (markedSpent_afterIdle hunsettled).mp (hafter.mpr hspends)
  · intro htracked td' htd' hunsettled'
    obtain ⟨i, hi⟩ := List.mem_iff_getElem?.mp htd'
    rw [scanUnconfirmedOutdateTx_getElem?] at hi
    obtain ⟨td, htd, rfl⟩ := Option.map_eq_some_iff.mp hi
    have hunsettled := unsettled_afterIdle.mp hunsettled'
    rw [markedSpent_afterIdle hunsettled]
    simp only [spends_afterIdle]
    constructor
    · exact fun hmarked => h.spends_of_knownSpent htd hmarked.2.2
    · exact fun hspends => htracked i td htd hunsettled hspends

/-! ## Runs -/

/-- A scan finds what it relies on. -/
def Tracked (prims : PoolPrimitives) (keyImageOf : Transaction → Nat → KeyImage) (w : PoolWallet) :
    Event → Prop
  | .scanTxPool txs _ => MultisigsTracked prims w txs
  | .scanUnconfirmedOutdateTx txExpirationTsMedian =>
      TransfersTracked keyImageOf w txExpirationTsMedian
  | _ => True

/-- The scan keeps what is recorded of the pool sound, also when it throws. -/
theorem Sound.scanTxPool (h : Sound keyImageOf w) {txs : List Transaction}
    (htxs : ∀ tx ∈ txs, RealInputs tx) (txExpirationTsMedian : Nat) :
    Sound keyImageOf (scanTxPool prims w txs txExpirationTsMedian).1 := by
  have hbase : Sound keyImageOf { w with unconfirmedInTransfers := [] } :=
    h.keepMultisigs h.transfers h.entries h.history rfl rfl
  obtain ⟨ids, hscan, hids⟩ := scanned_scanTxs prims txExpirationTsMedian w.unconfirmedInTransfers txs
    ({ w with unconfirmedInTransfers := [] }, [])
  have hsound := hbase.scanned hscan htxs
  unfold PoolWallet.scanTxPool
  split
  case h_1 v fromTxPool hscanned =>
    rw [hscanned] at hsound
    exact hsound
  case h_2 v fromTxPool hscanned =>
    rw [hscanned] at hsound hscan
    refine ⟨hsound.transfers, hsound.entries, hsound.history, ?_⟩
    intro multisigId hid
    -- what is listed now was met by this scan
    have hmem : multisigId ∈ fromTxPool := hid
    have hmet := (hscan.fromTxPool multisigId).mp hmem
    obtain ⟨hmet, hknown⟩ := hmet.resolve_left List.not_mem_nil
    obtain ⟨tdb, htdb⟩ := Option.isSome_iff_exists.mp hknown
    have hkept : (v.clearVanished fromTxPool).multisigTransfers multisigId =
        v.multisigTransfers multisigId := if_neg fun hvanished => hvanished.2.1 hmem
    unfold MarkedMultisig
    rw [hkept, hscan.multisigs, markScanned]
    by_cases hlisted : multisigId ∈ w.unconfirmedMultisigTransfers
    · rw [if_neg fun hmark => hmark.2 hlisted]
      exact h.listed multisigId hlisted
    · rw [if_pos ⟨hmet, hlisted⟩, htdb]
      exact ⟨_, rfl, fun _ => markSpent_isSpent tdb⟩

variable (prims) in
theorem Sound.step (h : Sound keyImageOf w) {event : Event}
    (hregular : Regular prims keyImageOf w event) : Sound keyImageOf (step prims w event) := by
  cases event with
  | processNewTransaction height timestamp t =>
      exact h.processNewTransaction hregular.1 hregular.2
  | blockAdded height =>
      exact h.withTransfers (h.transfers.of_spentOnly
        (IndexedWallet.SpentOnly.processHtlcTriggers prims.getTransactionHash _ height))
  | advance blockchainCurrentSize coreTime => exact h.withTransfers (h.transfers.of_transfers rfl)
  | detachBlockchain includingHeight => exact h.detachBlockchain includingHeight
  | resetAll =>
      exact {
        transfers := fun td htd => absurd htd List.not_mem_nil
        entries := nofun
        history := nofun
        listed := nofun }
  | changeFlags change =>
      exact h.withTransfers
        (h.transfers.of_fixed (IndexedWallet.map_fixed_mapIdx fun _ _ => rfl))
  | send tx selectedTransfers =>
      have hmarked := h.withTransfers (h.transfers.of_spentOnly
        (IndexedWallet.SpentOnly.markTransfersWithFlag _ selectedTransfers))
      exact hmarked.putUnconfirmed _ hregular
  | submitTransfer tx selectedTransfers => exact h.putUnconfirmed _ hregular
  | acceptProposal contractId template n thrown => exact h.acceptProposal hregular template n thrown
  | associateKeyImage transferIndex keyImage => exact h.withTransfers (h.associateKeyImage hregular)
  | scanTxPool txs txExpirationTsMedian =>
      exact h.scanTxPool (fun tx htx => (hregular tx htx).1) txExpirationTsMedian
  | scanUnconfirmedOutdateTx txExpirationTsMedian =>
      refine h.keepMultisigs ?_ ?_ h.history rfl rfl
      · exact h.transfers.of_fixed (IndexedWallet.map_fixed_mapIdx fun _ _ => fixed_afterIdle)
      · exact fun e he => h.entries e (List.mem_of_mem_filter he)

theorem empty_sound (keyImageOf : Transaction → Nat → KeyImage) (watchOnly auditable : Bool) :
    Sound keyImageOf (empty watchOnly auditable) where
  transfers := nofun
  entries := nofun
  history := nofun
  listed := nofun

/-- A scan that finds what it relies on leaves what it should. -/
theorem Sound.followed (h : Sound keyImageOf w) {event : Event}
    (hregular : Regular prims keyImageOf w event) (htracked : Tracked prims keyImageOf w event) :
    Followed prims keyImageOf w event := by
  cases event with
  | scanTxPool txs txExpirationTsMedian =>
      exact fun hok => (h.followsPool_iff hok fun tx htx => (hregular tx htx).2).mpr htracked
  | scanUnconfirmedOutdateTx txExpirationTsMedian =>
      exact (h.followsUnconfirmed_iff txExpirationTsMedian).mpr htracked
  | _ => trivial

/-- Every scan of a run leaves what it should. -/
def SpendsFollow (prims : PoolPrimitives) (keyImageOf : Transaction → Nat → KeyImage) (w : PoolWallet)
    (events : List Event) : Prop :=
  ∀ (done : List Event) event rest, events = done ++ event :: rest →
    Followed prims keyImageOf (run prims w done) event

/-- An event is regular, and if it is a scan, it finds what it relies on. -/
def Reliable (prims : PoolPrimitives) (keyImageOf : Transaction → Nat → KeyImage) (w : PoolWallet)
    (event : Event) : Prop :=
  Regular prims keyImageOf w event ∧ Tracked prims keyImageOf w event

/-- In every run whose scans find what they rely on, the marks follow the pool and the
unconfirmed transactions. -/
theorem unconfirmed_spends_follow (prims : PoolPrimitives)
    (keyImageOf : Transaction → Nat → KeyImage) (watchOnly auditable : Bool) (events : List Event)
    (hrun : ∀ (done : List Event) event rest, events = done ++ event :: rest →
      Reliable prims keyImageOf (run prims (empty watchOnly auditable) done) event) :
    SpendsFollow prims keyImageOf (empty watchOnly auditable) events := by
  intro done event rest hevents
  have hsound := RunInvariant.forall_states (empty_sound keyImageOf watchOnly auditable)
    (fun w event h hregular => Sound.step prims h hregular)
    (fun done event rest h => (hrun done event rest h).1) done (event :: rest) hevents
  obtain ⟨hregular, htracked⟩ := hrun done event rest hevents
  exact hsound.followed hregular htracked

/-- The hash is the version, and so is the id of a multisig output. -/
def samplePrims : PoolPrimitives where
  getTransactionHash tx := tx.version
  parseAndValidateTxExtra := fun _ => true
  lookupAccOuts := fun _ => some 0
  isDerivationUsedToEncrypt := fun _ => false
  getMultisigOutId tx _ := tx.version

def sampleTransaction (version : Nat) (vin : List Txin) : Transaction where
  version
  extra := []
  vin
  vout := [⟨10, .toKey { key := 1, mixAttr := 0 }⟩]
  signatures := []
  attachment := []

/-- A transaction with an output of this wallet, one with a multisig output, and one that spends
both. -/
def keySource : ReceivedTransaction := ⟨sampleTransaction 3 [], [⟨0, 5, 7, false, false⟩], [], 10⟩

def multisigSource : ReceivedTransaction := ⟨sampleTransaction 1 [], [], [0], 0⟩

def outputsSpender : Transaction :=
  sampleTransaction 2 [
    .toKey { amount := 10, keyOffsets := [.globalIndex 7], kImage := 5, etcDetails := [] },
    .multisig { amount := 10, multisigOutId := 1, sigsCount := 1, etcDetails := [] }]

/-- A transaction with an output whose key image the wallet cannot tell, and one that spends it. -/
def trackedSource : ReceivedTransaction :=
  ⟨sampleTransaction 1 [], [⟨0, nullKi, 7, false, false⟩], [], 10⟩

def trackedSpender : Transaction :=
  sampleTransaction 2 [.toKey {
    amount := 10
    keyOffsets := [.globalIndex 7]
    kImage := 5
    etcDetails := [] }]

/-- Both outputs have come in a block. -/
def outputsReceived : List Event :=
  [.advance 6 1000000000, .processNewTransaction 5 0 keySource,
    .processNewTransaction 5 0 multisigSource]

theorem outputsReceived_multisigTransfers {multisigId : Hash} (h : multisigId ≠ 1) :
    (run samplePrims (empty false false) outputsReceived).multisigTransfers multisigId = none :=
  Function.update_of_ne h _ _

/-- The multisig output whose spender has been in the pool is the only one. -/
theorem outputsSpent_multisigTransfers {multisigId : Hash} (h : multisigId ≠ 1) :
    (run samplePrims (empty false false) (outputsReceived ++
      [.scanTxPool [outputsSpender] 0])).multisigTransfers multisigId = none := by
  have hlooked : ¬ LookedAt samplePrims (run samplePrims (empty false false) outputsReceived)
      [outputsSpender] multisigId := by
    intro hlooked
    obtain ⟨tx, htx, hid⟩ := hlooked.spentInPool
    rw [List.mem_singleton.mp htx] at hid
    exact h (List.mem_singleton.mp hid)
  refine (scanTxPool_of_not_lookedAt (by decide +kernel)
    (fun _ _ _ he => absurd he List.not_mem_nil) hlooked).trans ?_
  rw [outputsReceived_multisigTransfers h]
  split <;> rfl

/-- The spender has been in the pool. -/
def outputsScanned : PoolWallet :=
  run samplePrims (empty false false)
    (outputsReceived ++ [.scanTxPool [outputsSpender] 0, .scanTxPool [] 0])

theorem unconfirmed_spends_follow_sample :
    SpendsFollow samplePrims (fun _ _ => 5) (empty false false)
      (outputsReceived ++
        [.scanTxPool [outputsSpender] 0, .scanTxPool [] 0, .scanUnconfirmedOutdateTx 0]) := by
  have hreal : RealInputs outputsSpender := by
    intro input hinput
    rcases List.mem_cons.mp hinput with heq | hmem
    · cases heq
      decide
    · cases List.mem_singleton.mp hmem
  have hnone : ∀ version, RealInputs (sampleTransaction version []) :=
    fun _ _ hinput => absurd hinput List.not_mem_nil
  apply unconfirmed_spends_follow
  simp only [run, outputsReceived, List.cons_append, List.nil_append]
  refine RunInvariant.forall_steps_cons ⟨trivial, trivial⟩ ?_
  refine RunInvariant.forall_steps_cons ⟨⟨hnone 3, ?_⟩, trivial⟩ ?_
  · intro out hout
    cases List.mem_singleton.mp hout
    exact Or.inr rfl
  refine RunInvariant.forall_steps_cons ⟨⟨hnone 1, nofun⟩, trivial⟩ ?_
  refine RunInvariant.forall_steps_cons ?_ ?_
  · -- the spender is new to the wallet, and nothing is marked
    refine ⟨fun tx htx => ⟨List.mem_singleton.mp htx ▸ hreal, nofun⟩, ?_⟩
    intro multisigId tdb htdb _
    by_cases hid : multisigId = 1
    · subst hid
      have hfree : some tdb = some ⟨sampleTransaction 1 [], 5, 0, 0, 0⟩ :=
        htdb.symm.trans (by decide +kernel)
      cases hfree
      refine ⟨fun _ hlooked => absurd ?_ hlooked, fun hmarked => absurd hmarked (by decide)⟩
      exact ⟨outputsSpender, List.mem_singleton_self _, by decide +kernel, by decide +kernel⟩
    · exact absurd (htdb.symm.trans (outputsReceived_multisigTransfers hid)) nofun
  refine RunInvariant.forall_steps_cons ?_ ?_
  · -- the multisig output is listed
    refine ⟨nofun, ?_⟩
    intro multisigId tdb htdb _
    refine ⟨nofun, fun _ _ => ?_⟩
    by_cases hid : multisigId = 1
    · subst hid
      decide +kernel
    · exact absurd (htdb.symm.trans (outputsSpent_multisigTransfers hid)) nofun
  refine RunInvariant.forall_steps_cons ?_ RunInvariant.forall_steps_nil
  · -- the spender is left, and its key image is that of the transfer
    refine ⟨trivial, ?_⟩
    intro i td htd _ _
    have hknown : ∀ td ∈ outputsScanned.transfers, td.flags &&& walletTransferDetailFlagSpent ≠ 0 ∧
        knownSpent (outputsScanned.left 0) td = true := by decide +kernel
    have hremoved : (outputsScanned.removed 0).length = 0 := by decide +kernel
    obtain ⟨hmarked, hknown⟩ := hknown td (List.mem_of_getElem? htd)
    refine ⟨hmarked, fun e he => ?_, hknown⟩
    exact absurd (List.length_eq_zero_iff.mp hremoved ▸ he) List.not_mem_nil

/-- A spender of a multisig output that is in the pool for two scans and then gone leaves the
output marked, and an idle scan frees an output that a tracking wallet has seen spent. -/
theorem unconfirmed_spends_do_not_follow :
    ¬ SpendsFollow samplePrims (fun _ _ => 5) (empty false false)
        (outputsReceived ++
          [.scanTxPool [outputsSpender] 0, .scanTxPool [outputsSpender] 0, .scanTxPool [] 0]) ∧
      ¬ SpendsFollow samplePrims (fun _ _ => 5) (empty true true)
        [.advance 6 1000000000, .processNewTransaction 5 0 trackedSource,
          .scanTxPool [trackedSpender] 0, .scanUnconfirmedOutdateTx 0] := by
  constructor
  · intro hclaim
    have hfollows : FollowsPool _ [] := hclaim (outputsReceived ++
      [.scanTxPool [outputsSpender] 0, .scanTxPool [outputsSpender] 0]) (.scanTxPool [] 0) [] rfl
      (by decide +kernel)
    have hstuck := hfollows 1 ⟨sampleTransaction 1 [], 5, 0, 1, 0⟩ (by decide +kernel) rfl
    exact absurd (hstuck.mp (by decide)) (by decide)
  · intro hclaim
    have hfollows : FollowsUnconfirmed _ _ := hclaim [.advance 6 1000000000,
      .processNewTransaction 5 0 trackedSource, .scanTxPool [trackedSpender] 0]
      (.scanUnconfirmedOutdateTx 0) [] rfl
    have hmem : (IndexedWallet.OwnOutput.transfer ⟨0, nullKi, 7, false, false⟩
        (sampleTransaction 1 []) 5) ∈ (step samplePrims (run samplePrims (empty true true)
          [.advance 6 1000000000, .processNewTransaction 5 0 trackedSource,
            .scanTxPool [trackedSpender] 0]) (.scanUnconfirmedOutdateTx 0)).transfers :=
      List.mem_of_getElem? (i := 0) rfl
    have hfreed := hfollows _ hmem (by unfold Unsettled; decide)
    refine absurd (hfreed.mpr ?_) (by unfold MarkedSpent; decide)
    exact ⟨(2, ⟨trackedSpender, false, 0, 1000000000, [0]⟩), by decide +kernel, _,
      List.mem_singleton_self _, rfl⟩

end PoolWallet

end Chinet
