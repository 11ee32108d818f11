import Chinet.Storage.Blocks

/-!
# What the transactions of a block leave alone

Adding and purging transactions changes the containers of transactions only:
the blocks, their index and everything about the alternative chains stay.  A
block that is added or popped therefore changes the chain at its end and
nothing else there.  The procedures are gone through once, for any relation that their
steps respect.
-/

namespace Chinet

open Procedure

variable (env : Env)

/-! ## Views -/

/-- The containers that only whole blocks change. -/
def Db.chainView (db : Db) :
    List BlockExtendedInfo × FiniteStore Hash Nat × FiniteStore Nat (FiniteStore UInt64 Nat) :=
  (db.blocks, db.blocksIndex, db.perBlockGindexIncs)

structure AltView where
  alternativeChains : FiniteStore Hash AltBlockExtendedInfo
  alternativeChainsTxs : FiniteStore Hash Nat
  altblocksKeyimages : FiniteStore KeyImage (List Hash)
  isReorganizeInProcess : Bool

def Node.altView (node : Node) : AltView where
  alternativeChains := node.alternativeChains
  alternativeChainsTxs := node.alternativeChainsTxs
  altblocksKeyimages := node.altblocksKeyimages
  isReorganizeInProcess := node.isReorganizeInProcess

/-- The chain and the alternative containers. -/
def Node.frame (node : Node) := (node.db.chainView, node.altView)

/-- All but the caches, the checkpoint zone flag and the list of invalid blocks. -/
def Node.store (node : Node) := (node.db, node.pool, node.altView)

theorem keeps_frame_of_store {α : Type} {x : NodeProcedure α} (hx : Keeps Node.store x) :
    Keeps Node.frame x :=
  hx.comp fun store => (store.1.chainView, store.2.2)

theorem keeps_onDb {α : Type} {x : DbProcedure α} (hx : Keeps Db.chainView x) :
    Keeps Node.frame (NodeProcedure.onDb x) := by
  unfold NodeProcedure.onDb
  refine hx.onPart ?_
  intro db node h
  exact Prod.ext h rfl

section

variable {σ : Type} {R : σ → σ → Prop} {ν : Type} {view : σ → ν} {α β : Type}

theorem follows_succeeds {x : Procedure Failure σ Unit} (hx : Follows R x) :
    Follows R (succeeds x) := by
  intro s
  have hxs := hx s
  rcases hrun : x s with ⟨(_ | _) | _, s'⟩ <;> rw [hrun] at hxs <;> simpa [succeeds, hrun] using hxs

theorem follows_onReject [IsPreorder σ R] {x : Procedure Failure σ α}
    {cleanup : Procedure Failure σ β} (hx : Follows R x) (hc : Follows R cleanup) :
    Follows R (onReject x cleanup) := by
  intro s
  have hxs := hx s
  rcases hrun : x s with ⟨(_ | _) | _, s'⟩ <;> rw [hrun] at hxs
  · have hcs := hc s'
    rcases hclean : cleanup s' with ⟨(_ | _) | _, s''⟩ <;> rw [hclean] at hcs <;>
      simpa [onReject, hrun, hclean] using IsTrans.trans _ _ _ hxs hcs
  · simpa [onReject, hrun] using hxs
  · simpa [onReject, hrun] using hxs

theorem keeps_succeeds {x : Procedure Failure σ Unit} (hx : Keeps view x) :
    Keeps view (succeeds x) :=
  follows_succeeds (R := SameView view) hx

end

/-! ## Inputs and outputs -/

theorem keeps_updateSpentTxFlags (txId : Hash) (n : Nat) (spent : Bool) :
    Keeps Db.chainView (updateSpentTxFlags txId n spent) := by
  intro db
  unfold updateSpentTxFlags
  split
  · rfl
  · split <;> rfl

theorem keeps_updateSpentTxFlagsForInput (amount : UInt64) (ref : TxoutRef) (spent : Bool) :
    Keeps Db.chainView (updateSpentTxFlagsForInput amount ref spent) := by
  cases ref with
  | refById txId n => exact keeps_updateSpentTxFlags txId n spent
  | globalIndex index =>
      refine (Keeps.gets _).bind fun entry => ?_
      cases entry with
      | none => exact Keeps.fail _
      | some entry => exact keeps_updateSpentTxFlags _ _ _

theorem keeps_updateSpentTxFlagsForMultisig (multisigId : Hash) (spentHeight : Nat) :
    Keeps Db.chainView (updateSpentTxFlagsForMultisig multisigId spentHeight) := by
  refine (Keeps.gets _).bind fun ms => ?_
  cases ms with
  | none => exact Keeps.fail _
  | some ms => exact (Keeps.modify (by intro _; rfl)).bind fun _ => keeps_updateSpentTxFlags _ _ _

theorem keeps_updateDirectSpend (part : TxinToKey) (spent : Bool) :
    Keeps Db.chainView (updateDirectSpend part spent) := by
  unfold updateDirectSpend
  split
  · exact keeps_updateSpentTxFlagsForInput _ _ _
  · exact Keeps.pure ()

theorem keeps_addKeyInput (blHeight : Nat) (part : TxinToKey) :
    Keeps Db.chainView (addKeyInput blHeight part) :=
  (Keeps.check _).bind fun _ => (Keeps.modify (by intro _; rfl)).bind fun _ =>
    keeps_updateDirectSpend part true

theorem keeps_addTransactionInput (blHeight : Nat) (input : Txin) :
    Keeps Db.chainView (addTransactionInput env blHeight input) := by
  cases input with
  | gen height => exact Keeps.pure ()
  | toKey input => exact keeps_addKeyInput blHeight input
  | multisig input => exact keeps_updateSpentTxFlagsForMultisig _ _
  | htlc input => exact (Keeps.check _).bind fun _ => keeps_addKeyInput _ _

theorem keeps_purgeKeyInput (strictCheck : Bool) (part : TxinToKey) :
    Keeps Db.chainView (purgeKeyInput strictCheck part) :=
  (Keeps.gets _).bind fun _ => (Keeps.modify (by intro _; rfl)).bind fun _ =>
    (Keeps.check _).bind fun _ => keeps_updateDirectSpend part false

theorem keeps_purgeInput (strictCheck : Bool) (input : Txin) :
    Keeps Db.chainView (purgeInput strictCheck input) := by
  cases input with
  | gen height => exact Keeps.pure ()
  | toKey input => exact keeps_purgeKeyInput _ _
  | multisig input => exact keeps_updateSpentTxFlagsForMultisig _ _
  | htlc input => exact keeps_purgeKeyInput _ _

theorem keeps_purgeTransactionKeyimages (tx : Transaction) (strictCheck : Bool) :
    Keeps Db.chainView (purgeTransactionKeyimages tx strictCheck) := by
  refine Keeps.forEach (fun input => ?_) tx.vin
  cases strictCheck with
  | false => exact (keeps_succeeds (keeps_purgeInput false input)).bind fun _ => Keeps.pure ()
  | true => exact keeps_purgeInput true input

theorem keeps_pushTransactionOutput (tx : Transaction) (txId : Hash) (i : Nat) (out : TxOut) :
    Keeps Db.chainView (pushTransactionOutput env tx txId i out) := by
  unfold pushTransactionOutput
  split
  · exact (Keeps.modify (by intro _; rfl)).bind fun _ => (Keeps.check _).bind fun _ => Keeps.gets _
  · exact (Keeps.check _).bind fun _ => (Keeps.modify (by intro _; rfl)).bind fun _ => Keeps.pure 0

theorem keeps_pushTransactionOutputs (tx : Transaction) (txId : Hash) (i : Nat) (outs : List TxOut) :
    Keeps Db.chainView (pushTransactionOutputs env tx txId i outs) := by
  induction outs generalizing i with
  | nil => exact Keeps.pure []
  | cons out rest ih =>
      exact (keeps_pushTransactionOutput env tx txId i out).bind fun _ =>
        (ih (i + 1)).bind fun _ => Keeps.pure _

theorem keeps_popTransactionOutput (tx : Transaction) (txId : Hash) (i : Nat) (out : TxOut) :
    Keeps Db.chainView (popTransactionOutput env tx txId i out) := by
  unfold popTransactionOutput
  split
  · exact (Keeps.check _).bind fun _ => Keeps.modify (by intro _; rfl)
  · exact (Keeps.check _).bind fun _ => Keeps.modify (by intro _; rfl)

theorem keeps_popTransactionOutputs (tx : Transaction) (txId : Hash) (i : Nat) (outs : List TxOut) :
    Keeps Db.chainView (popTransactionOutputs env tx txId i outs) := by
  induction outs generalizing i with
  | nil => exact Keeps.pure ()
  | cons out rest ih =>
      exact (ih (i + 1)).bind fun _ => keeps_popTransactionOutput env tx txId i out

/-! ## Aliases -/

theorem keeps_putAliasInfo (ai : ExtraAliasEntry) : Keeps Db.chainView (putAliasInfo env ai) := by
  intro db
  unfold putAliasInfo
  split
  · rfl
  · split
    · rfl
    · split
      · split <;> rfl
      · rfl

theorem keeps_popAliasInfo (ai : ExtraAliasEntry) : Keeps Db.chainView (popAliasInfo ai) := by
  intro db
  unfold popAliasInfo
  split
  · rfl
  · split
    · rfl
    · split
      · rfl
      · dsimp only
        split <;> rfl

theorem keeps_unprocessBlockchainTxExtra (tx : Transaction) :
    Keeps Db.chainView (unprocessBlockchainTxExtra tx) := by
  unfold unprocessBlockchainTxExtra
  split
  · exact Keeps.fail _
  · exact Keeps.pure ()
  · exact keeps_popAliasInfo _

/-! ## Transactions -/

theorem keeps_addTransactionInputs (tx : Transaction) (blHeight : Nat) :
    Keeps Db.chainView (addTransactionInputs env tx blHeight) := by
  refine (keeps_succeeds (Keeps.forEach (keeps_addTransactionInput env blHeight) tx.vin)).bind
    fun added => ?_
  split
  · exact Keeps.pure ()
  · exact (keeps_succeeds (keeps_purgeTransactionKeyimages tx false)).bind fun _ =>
      (keeps_unprocessBlockchainTxExtra tx).bind fun _ => Keeps.fail _

theorem keeps_checkTransactionIsNew (tx : Transaction) (txId : Hash) :
    Keeps Db.chainView (checkTransactionIsNew tx txId) := by
  refine (Keeps.gets _).bind fun isNew => ?_
  split
  · exact Keeps.pure ()
  · exact (keeps_succeeds (keeps_purgeTransactionKeyimages tx true)).bind fun _ =>
      (keeps_unprocessBlockchainTxExtra tx).bind fun _ => Keeps.fail _

theorem keeps_storeTransaction (tx : Transaction) (txId : Hash) (blHeight : Nat) :
    Keeps Db.chainView (storeTransaction env tx txId blHeight) :=
  (keeps_pushTransactionOutputs env tx txId 0 tx.vout).bind fun _ => Keeps.modify (by intro _; rfl)

theorem keeps_eraseTransaction (tx : Transaction) (txId : Hash) :
    Keeps Db.chainView (eraseTransaction env tx txId) := by
  refine (keeps_succeeds (keeps_popTransactionOutputs env tx txId 0 tx.vout)).bind fun res =>
    (Keeps.modify (by intro _; rfl)).bind fun _ => ?_
  split
  · exact Keeps.pure ()
  · exact Keeps.fail _

/-! ## Relations between nodes -/

/-- The fee median at hand, and the index of the block it was taken from. -/
def Node.feeFields (node : Node) : UInt64 × Nat :=
  (node.currentFeeMedian, node.currentFeeMedianEffectiveIndex)

/-- Asking for the fee median respects the relation, and so does what changes neither the store nor
the median at hand. -/
structure StoreSteps (R : Node → Node → Prop) : Prop where
  median : Follows R getTxFeeMedian
  same : ∀ {node node' : Node}, node'.store = node.store → node'.feeFields = node.feeFields →
    R node node'

/-- Here whatever leaves the chain, the alternative containers and the median at hand alone respects
the relation. -/
structure FrameSteps (R : Node → Node → Prop) : Prop where
  median : Follows R getTxFeeMedian
  same : ∀ {node node' : Node}, node'.frame = node.frame → node'.feeFields = node.feeFields →
    R node node'

theorem keeps_getTxFeeMedian : Keeps Node.store getTxFeeMedian := by
  intro node
  unfold getTxFeeMedian
  dsimp only
  split
  · split <;> rfl
  · rfl

theorem storeSteps : StoreSteps (SameView Node.store) :=
  ⟨keeps_getTxFeeMedian, fun h _ => h⟩

theorem frameSteps : FrameSteps (SameView Node.frame) :=
  ⟨keeps_frame_of_store keeps_getTxFeeMedian, fun h _ => h⟩

/-! ## The procedures of a block -/

section

variable {R : Node → Node → Prop}

theorem FrameSteps.storeSteps (hR : FrameSteps R) : StoreSteps R where
  median := hR.median
  same hstore := hR.same (congrArg (fun store => (store.1.chainView, store.2.2)) hstore)

theorem FrameSteps.onDb (hR : FrameSteps R) {α : Type} {x : DbProcedure α}
    (hx : Keeps Db.chainView x) : Follows R (NodeProcedure.onDb x) :=
  fun node => hR.same (keeps_onDb hx node) rfl

theorem follows_nextDiffConditional (hR : StoreSteps R) (pos : Bool) :
    Follows R (nextDiffConditional env pos) := by
  intro node
  unfold nextDiffConditional
  dsimp only
  split
  · exact hR.same rfl rfl
  · split <;> exact hR.same rfl rfl

variable [IsPreorder Node R]

theorem follows_prevalidateAliasInfo (hR : StoreSteps R) (tx : Transaction)
    (eae : ExtraAliasEntry) :
    Follows R (prevalidateAliasInfo env tx eae) := by
  refine (Follows.check _).bind fun _ => (Follows.gets _).bind fun history => ?_
  split
  · refine hR.median.bind fun _ => (Follows.check _).bind fun _ => ?_
    split
    · exact Follows.check _
    · exact Follows.pure ()
  · exact Follows.pure ()

theorem follows_processBlockchainTxExtra (hR : FrameSteps R) (tx : Transaction) :
    Follows R (processBlockchainTxExtra env tx) := by
  unfold processBlockchainTxExtra
  split
  · exact Follows.fail _
  · exact Follows.pure ()
  · exact (follows_prevalidateAliasInfo env hR.storeSteps tx _).bind fun _ =>
      hR.onDb (keeps_putAliasInfo env _)

theorem follows_addTransactionFromBlock (hR : FrameSteps R) (tx : Transaction) (txId : Hash)
    (blHeight : Nat) :
    Follows R (addTransactionFromBlock env tx txId blHeight) :=
  (Follows.check _).bind fun _ => (follows_processBlockchainTxExtra env hR tx).bind fun _ =>
    hR.onDb ((keeps_addTransactionInputs env tx blHeight).bind fun _ =>
      (keeps_checkTransactionIsNew tx txId).bind fun _ => keeps_storeTransaction env tx txId blHeight)

theorem follows_poolAddTx (hR : FrameSteps R) (tx : Transaction) : Follows R (poolAddTx env tx) :=
  (Follows.check _).bind fun _ => Follows.modify fun _ => hR.same rfl rfl

theorem follows_purgeTransactionFromBlockchain (hR : FrameSteps R) (txId : Hash) :
    Follows R (purgeTransactionFromBlockchain env txId) := by
  refine (Follows.gets _).bind fun entry => ?_
  cases entry with
  | none => exact Follows.fail _
  | some entry =>
      refine (hR.onDb ?_).bind fun _ => ?_
      · exact (keeps_succeeds (keeps_purgeTransactionKeyimages entry.tx true)).bind fun _ =>
          keeps_unprocessBlockchainTxExtra entry.tx
      · have herase := hR.onDb (keeps_eraseTransaction env entry.tx txId)
        dsimp only
        split
        · exact herase.bind fun _ => Follows.pure _
        · exact (follows_poolAddTx env hR entry.tx).bind fun _ => herase.bind fun _ => Follows.pure _

theorem follows_tryPurgeTransaction (hR : FrameSteps R) (txId : Hash) :
    Follows R (tryPurgeTransaction env txId) := by
  intro node
  have hx := follows_purgeTransactionFromBlockchain env hR txId node
  rcases hrun : purgeTransactionFromBlockchain env txId node with ⟨(_ | _) | _, node'⟩ <;>
    rw [hrun] at hx <;> simpa [tryPurgeTransaction, hrun] using hx

theorem follows_purgeTransactions (hR : FrameSteps R) (txIds : List Hash) (res : Bool)
    (onboardTransactions : TransactionsMap) :
    Follows R (purgeTransactions env txIds res onboardTransactions) := by
  induction txIds generalizing res onboardTransactions with
  | nil => exact Follows.pure _
  | cons txId rest ih =>
      refine (follows_tryPurgeTransaction env hR txId).bind fun tx => ?_
      cases tx with
      | none => exact ih _ _
      | some tx => exact ih _ _

theorem follows_purgeBlockDataFromBlockchain (hR : FrameSteps R) (bl : Block)
    (processedTxCount : Nat) :
    Follows R (purgeBlockDataFromBlockchain env bl processedTxCount) := by
  refine (Follows.check _).bind fun _ => (follows_purgeTransactions env hR _ _ _).bind fun result =>
    (follows_tryPurgeTransaction env hR _).bind fun minerTx => ?_
  split
  · exact Follows.pure _
  · exact Follows.fail _

theorem follows_returnToPool (hR : FrameSteps R) (takenFromPool : Bool) (tx : Transaction) :
    Follows R (returnToPool env takenFromPool tx) := by
  unfold returnToPool
  split
  · exact (follows_succeeds (follows_poolAddTx env hR tx)).bind fun _ => Follows.pure ()
  · exact Follows.pure ()

theorem follows_checkBlockTransactionInputs (hR : FrameSteps R) (now : Nat) (id txId : Hash)
    (takenFromPool : Bool) (tx : Transaction) :
    Follows R (checkBlockTransactionInputs env now id txId takenFromPool tx) :=
  follows_onReject (Follows.check _)
    ((follows_returnToPool env hR takenFromPool tx).bind fun _ =>
      Follows.modify fun _ => hR.same rfl rfl)

theorem follows_addBlockTransaction (hR : FrameSteps R) (now : Nat) (id : Hash)
    (onboardTransactions : TransactionsMap) (totals : BlockTotals) (txId : Hash) :
    Follows R (addBlockTransaction env now id onboardTransactions totals txId) := by
  refine Follows.bind (fun _ => hR.same rfl rfl) fun fromPool => ?_
  split
  · exact Follows.fail _
  · exact (Follows.check _).bind fun _ => (Follows.gets _).bind fun _ =>
      (follows_checkBlockTransactionInputs env hR now id txId _ _).bind fun _ =>
        (Follows.gets _).bind fun _ =>
          (follows_onReject (follows_addTransactionFromBlock env hR _ _ _)
            (follows_returnToPool env hR _ _)).bind fun _ => Follows.pure _

theorem follows_addBlockTransactions (hR : FrameSteps R) (now : Nat) (bl : Block) (id : Hash)
    (onboardTransactions : TransactionsMap) (txProcessedCount : Nat) (totals : BlockTotals)
    (txIds : List Hash) :
    Follows R
      (addBlockTransactions env now bl id onboardTransactions txProcessedCount totals txIds) := by
  induction txIds generalizing txProcessedCount totals with
  | nil => exact Follows.pure _
  | cons txId rest ih =>
      exact (follows_onReject
        (follows_addBlockTransaction env hR now id onboardTransactions totals txId)
        (follows_purgeBlockDataFromBlockchain env hR bl txProcessedCount)).bind fun _ => ih _ _

theorem follows_enterCheckpointZone (hR : StoreSteps R) (id : Hash) :
    Follows R (enterCheckpointZone env id) :=
  Follows.bind (fun _ => hR.same rfl rfl) fun _ => Follows.check _

theorem follows_checkBlockHeader (hR : StoreSteps R) (now : Nat) (bl : Block) (id : Hash) :
    Follows R (checkBlockHeader env now bl id) :=
  (Follows.check _).bind fun _ => (follows_enterCheckpointZone env hR id).bind fun _ =>
    (Follows.check _).bind fun _ => (follows_nextDiffConditional env hR _).bind fun _ =>
      (Follows.check _).bind fun _ => (Follows.check _).bind fun _ => (Follows.check _).bind fun _ =>
        Follows.pure _

theorem follows_effectiveTxFeeMedian (hR : StoreSteps R) (height : Nat) :
    Follows R (effectiveTxFeeMedian height) := by
  unfold effectiveTxFeeMedian
  split
  · exact hR.median
  · exact Follows.gets _

theorem follows_makeBlockExtendedInfo (hR : StoreSteps R) (bl : Block) (id : Hash)
    (totals : BlockTotals) (currentDiffic : WideDifficulty) (stakeHash : Hash)
    (aliasesCountBeforBlock : Nat) :
    Follows R
      (makeBlockExtendedInfo env bl id totals currentDiffic stakeHash aliasesCountBeforBlock) :=
  (Follows.check _).bind fun _ => (Follows.check _).bind fun _ => (Follows.check _).bind fun _ =>
    (Follows.gets _).bind fun height => (follows_effectiveTxFeeMedian hR height).bind fun _ =>
      Follows.gets _

end

/-! ## What is kept -/

theorem keeps_prevalidateAliasInfo (tx : Transaction) (eae : ExtraAliasEntry) :
    Keeps Node.store (prevalidateAliasInfo env tx eae) :=
  follows_prevalidateAliasInfo env storeSteps tx eae

theorem keeps_addTransactionFromBlock (tx : Transaction) (txId : Hash) (blHeight : Nat) :
    Keeps Node.frame (addTransactionFromBlock env tx txId blHeight) :=
  follows_addTransactionFromBlock env frameSteps tx txId blHeight

theorem keeps_purgeBlockDataFromBlockchain (bl : Block) (processedTxCount : Nat) :
    Keeps Node.frame (purgeBlockDataFromBlockchain env bl processedTxCount) :=
  follows_purgeBlockDataFromBlockchain env frameSteps bl processedTxCount

theorem keeps_addBlockTransaction (now : Nat) (id : Hash) (onboardTransactions : TransactionsMap)
    (totals : BlockTotals) (txId : Hash) :
    Keeps Node.frame (addBlockTransaction env now id onboardTransactions totals txId) :=
  follows_addBlockTransaction env frameSteps now id onboardTransactions totals txId

theorem keeps_addBlockTransactions (now : Nat) (bl : Block) (id : Hash)
    (onboardTransactions : TransactionsMap) (txProcessedCount : Nat) (totals : BlockTotals)
    (txIds : List Hash) :
    Keeps Node.frame
      (addBlockTransactions env now bl id onboardTransactions txProcessedCount totals txIds) :=
  follows_addBlockTransactions env frameSteps now bl id onboardTransactions txProcessedCount totals
    txIds

theorem keeps_checkBlockHeader (now : Nat) (bl : Block) (id : Hash) :
    Keeps Node.store (checkBlockHeader env now bl id) :=
  follows_checkBlockHeader env storeSteps now bl id

theorem keeps_makeBlockExtendedInfo (bl : Block) (id : Hash) (totals : BlockTotals)
    (currentDiffic : WideDifficulty) (stakeHash : Hash) (aliasesCountBeforBlock : Nat) :
    Keeps Node.store
      (makeBlockExtendedInfo env bl id totals currentDiffic stakeHash aliasesCountBeforBlock) :=
  follows_makeBlockExtendedInfo env storeSteps bl id totals currentDiffic stakeHash
    aliasesCountBeforBlock

end Chinet
