import Chinet.Storage.History

/-!
# Popping a block that was just added

`pop_block_from_blockchain` gives back the state before the block on two
conditions.

* The pool takes every transaction of the block back.  `add_tx` refuses what
  `validate_tx_semantic` lets into a block: more than
  `CURRENCY_TX_MAX_ALLOWED_OUTS` outputs, or an input of amount zero.  The purge
  then leaves the transaction where it is, and the block is not popped.
* No output that an input of the block marks was marked before: the purge puts
  the flag to unspent, whatever it was.
-/

namespace Chinet

open Procedure FiniteStore

variable {env : Env}

/-! ## What the pool takes back -/

theorem inputsMoneyFrom_fst {money : UInt64} {inputs : List Txin} :
    (inputsMoneyFrom money inputs).1 = true ↔ ∀ input ∈ inputs, input.amount ≠ 0 := by
  induction inputs generalizing money with
  | nil => simp [inputsMoneyFrom]
  | cons input rest ih =>
      rw [inputsMoneyFrom]
      by_cases hzero : input.amount = 0
      · simp [hzero]
      · rw [if_neg hzero, ih]
        simp [hzero]

/-- A rule that allows something stays in force. -/
theorem validateTxForHardforkSpecificTerms_mono {tx : Transaction} {height height' : Nat}
    (hle : height ≤ height') (h : validateTxForHardforkSpecificTerms env tx height = true) :
    validateTxForHardforkSpecificTerms env tx height' = true := by
  unfold validateTxForHardforkSpecificTerms Env.isAfterHardfork1Zone Env.isAfterHardfork2Zone
    Env.isAfterHardfork3Zone at h ⊢
  simp only [Bool.and_eq_true, Bool.or_eq_true, decide_eq_true_eq] at h ⊢
  obtain ⟨⟨hthree, hone⟩, htwo⟩ := h
  exact ⟨⟨hthree.imp_left fun h => h.trans_le hle, hone.imp_left fun h => h.trans_le hle⟩,
    htwo.imp_left fun h => h.trans_le hle⟩

/-- The transactions that `add_tx` takes back into the pool. -/
def TakenBack (tx : Transaction) : Prop :=
  tx.vout.length ≤ currencyTxMaxAllowedOuts ∧ ∀ input ∈ tx.vin, input.amount ≠ 0

instance (tx : Transaction) : Decidable (TakenBack tx) :=
  inferInstanceAs (Decidable (_ ∧ _))

theorem isCoinbase_of_hasGen {tx : TransactionPrefix} (h : isCoinbase tx = true) :
    checkInputsTypesSupported tx = false := by
  unfold isCoinbase at h
  unfold checkInputsTypesSupported
  split at h
  · rename_i hvin
    simp [hvin, Txin.isGen]
  · rename_i hvin
    simp [hvin, Txin.isGen]
  · cases h

theorem TxProcessed.purgeable_iff {pool : FiniteStore Hash TxDetails} {onboard : TransactionsMap}
    {height : Nat} {p : ProcessedTx} (h : TxProcessed env pool onboard height p) {db : Db}
    (hsize : height ≤ db.size) : Purgeable env db.size p.entry.tx ↔ TakenBack p.entry.tx := by
  have hsemantic := h.semantic
  unfold validateTxSemantic at hsemantic
  simp only [Bool.and_eq_true, decide_eq_true_eq] at hsemantic
  obtain ⟨⟨⟨⟨⟨⟨⟨_, htypes⟩, _⟩, _⟩, hmoney⟩, _⟩, _⟩, _⟩ := hsemantic
  have hcoinbase : isCoinbase p.entry.tx.toTransactionPrefix = false := by
    by_contra hne
    rw [isCoinbase_of_hasGen (by simpa using hne)] at htypes
    cases htypes
  have hterms := validateTxForHardforkSpecificTerms_mono hsize h.terms
  have haccepts : ∀ db' : Db, db'.size = db.size →
      (poolAccepts env db' p.entry.tx = true ↔ TakenBack p.entry.tx) := by
    intro db' hdb
    unfold poolAccepts TakenBack
    rw [hdb]
    simp only [Bool.and_eq_true, decide_eq_true_eq]
    rw [getInputsMoneyAmount, inputsMoneyFrom_fst]
    constructor
    · rintro ⟨⟨⟨_, hamounts⟩, houts⟩, _⟩
      exact ⟨houts, hamounts⟩
    · rintro ⟨houts, hamounts⟩
      exact ⟨⟨⟨⟨hterms, htypes⟩, hamounts⟩, houts⟩, hmoney⟩
  constructor
  · intro hpurgeable
    exact (haccepts db rfl).mp (hpurgeable hcoinbase db rfl)
  · intro htaken _ db' hdb
    exact (haccepts db' hdb).mpr htaken

/-- A coinbase does not go to the pool. -/
theorem BlockValid.isCoinbase {D : Db} {r : BlockRecord} (h : BlockValid env D r) :
    isCoinbase r.coinbase.tx.toTransactionPrefix = true := by
  obtain ⟨_, _, _, _, hheader⟩ := h.header
  have hminer := hheader.minerTx
  unfold prevalidateMinerTransaction at hminer
  rw [require_bind_eq_ok] at hminer
  have hshape := hminer.1
  rw [h.coinbase_tx]
  split at hshape
  · rename_i hvin
    rw [Chinet.isCoinbase, hvin]
  · rename_i hvin
    rw [Chinet.isCoinbase, hvin]
  · cases hshape

theorem BlockValid.purgeable_iff {D : Db} {r : BlockRecord} (h : BlockValid env D r) {db : Db}
    (hsize : D.size ≤ db.size) :
    (∀ e ∈ r.entries, Purgeable env db.size e.tx) ↔ ∀ p ∈ r.processed, TakenBack p.entry.tx := by
  constructor
  · intro hall p hp
    obtain ⟨_, _, hprocessed⟩ := h.processed p hp
    exact (hprocessed.purgeable_iff hsize).mp
      (hall p.entry (List.mem_cons_of_mem _ (List.mem_map_of_mem hp)))
  · intro hall e he
    rcases List.mem_cons.mp he with rfl | he
    · intro hfalse
      rw [h.isCoinbase] at hfalse
      cases hfalse
    · obtain ⟨p, hp, rfl⟩ := List.mem_map.mp he
      obtain ⟨_, _, hprocessed⟩ := h.processed p hp
      exact (hprocessed.purgeable_iff hsize).mpr (hall p hp)

/-! ## The pop -/

/-- The containers of the main chain are equal. -/
structure SameContainers (db db' : Db) : Prop where
  blocks : db.blocks = db'.blocks
  blocksIndex : db.blocksIndex = db'.blocksIndex
  transactions : db.transactions = db'.transactions
  spentKeys : db.spentKeys = db'.spentKeys
  outputs : db.outputs = db'.outputs
  multisigOuts : db.multisigOuts = db'.multisigOuts
  aliases : db.aliases = db'.aliases
  addrToAlias : db.addrToAlias = db'.addrToAlias

/-- The transactions that a block names. -/
def givenTransactions (env : Env) (node : Node) (onboard : TransactionsMap) (bl : Block) :
    List Transaction :=
  bl.txHashes.filterMap fun txId => (givenTransaction env node.pool onboard txId).map Prod.fst

/-- No input marks an output that has its spent flag set. -/
def MarksUnspent (db : Db) (tx : TransactionPrefix) : Prop :=
  ∀ input ∈ tx.vin, ∀ p, db.spendTarget input = some p → flagAt db.transactions p ≠ some true

instance (db : Db) (tx : TransactionPrefix) : Decidable (MarksUnspent db tx) :=
  inferInstanceAs (Decidable (∀ input ∈ tx.vin, ∀ p ∈ db.spendTarget input,
    flagAt db.transactions p ≠ some true))

/-- The transactions that are given and those that are added differ in their
signatures and attachments only. -/
theorem AddedRecord.given_iff {onboard : TransactionsMap} {node node' : Node} {bl : Block} {id : Hash}
    {r : BlockRecord} (h : AddedRecord env onboard node node' bl id r)
    (P : TransactionPrefix → Prop) :
    (∀ p ∈ r.processed, P p.entry.tx.toTransactionPrefix) ↔
      ∀ tx ∈ givenTransactions env node onboard bl, P tx.toTransactionPrefix := by
  have hids : bl.txHashes = r.processed.map fun p => p.entry.txId := by
    rw [h.valid.txIds, h.bl_eq]
  rw [givenTransactions, hids, List.filterMap_map]
  constructor
  · intro hall tx htx
    obtain ⟨p, hp, hgiven⟩ := List.mem_filterMap.mp htx
    obtain ⟨⟨tx', zone, hgiven', hprune⟩, _⟩ := h.given p hp
    simp only [Function.comp_apply, hgiven', Option.map_some, Option.some.injEq] at hgiven
    have hsame := hall p hp
    rw [hprune, toTransactionPrefix_pruneForCheckpointZone, hgiven] at hsame
    exact hsame
  · intro hall p hp
    obtain ⟨⟨tx, zone, hgiven, hprune⟩, _⟩ := h.given p hp
    rw [hprune, toTransactionPrefix_pruneForCheckpointZone]
    refine hall tx (List.mem_filterMap.mpr ⟨p, hp, ?_⟩)
    rw [Function.comp_apply, hgiven, Option.map_some]

theorem AddedRecord.blocks_eq {onboard : TransactionsMap} {node node' : Node} {bl : Block} {id : Hash}
    {r : BlockRecord} (h : AddedRecord env onboard node node' bl id r) :
    node'.db.blocks = node.db.blocks ++ [r.bei] := by
  have hview := @applyEntries_chainView env r.entries node.db
  rw [h.db_eq, pushBlock]
  exact congrArg (fun view => view.1 ++ [r.bei]) hview

theorem AddedRecord.blocksIndex_eq {onboard : TransactionsMap} {node node' : Node} {bl : Block}
    {id : Hash} {r : BlockRecord} (h : AddedRecord env onboard node node' bl id r) :
    node'.db.blocksIndex = node.db.blocksIndex.insert id r.bei.height := by
  have hview := @applyEntries_chainView env r.entries node.db
  rw [h.db_eq, pushBlock]
  exact congrArg (fun view => view.2.1.insert id r.bei.height) hview

/-- A pop that succeeds on top of a block that was just added. -/
theorem AddedRecord.popBlock {onboard txs : TransactionsMap} {node node' popped : Node} {bl : Block}
    {r : BlockRecord} (h : AddedRecord env onboard node node' bl (env.crypto.getBlockHash bl) r)
    (hfresh : node.db.blocksIndex.lookup (env.crypto.getBlockHash bl) = none)
    (hD : LedgerWellFormed node.db)
    (hpop : popBlockFromBlockchain env node' = (.ok txs, popped)) :
    (∀ p ∈ r.processed, TakenBack p.entry.tx) ∧
      (SameContainers popped.db node.db ↔ ∀ e ∈ r.entries, MarksUnspent node.db e.tx.toTransactionPrefix) := by
  obtain ⟨s⟩ := popBlockFromBlockchain_ok hpop
  have hbei : s.bei = r.bei := by
    have hlast := s.last
    rw [h.blocks_eq, List.getLast?_concat] at hlast
    exact (Option.some.inj hlast).symm
  have hsame : SameLedger node'.db (applyEntries env r.entries node.db) := by
    rw [h.db_eq]
    exact sameLedger_pushBlock _ _ _ _
  have htransactions : node'.db.transactions = (applyEntries env r.entries node.db).transactions := by
    rw [h.db_eq]
    rfl
  have hpurge := s.purge
  rw [hbei] at hpurge
  obtain ⟨hpurgeable, hdb⟩ := h.valid.purge_ok hD hsame hpurge
  have hsize : node.db.size ≤ node'.db.size := by
    rw [Db.size, Db.size, h.blocks_eq, List.length_append]
    omega
  refine ⟨(h.valid.purgeable_iff hsize).mp hpurgeable, ?_⟩
  have hrestored : SameLedger s.afterPurge.db node.db := by
    rw [hdb]
    exact sameLedger_unwindEntries h.valid.valid hsame
  have hresult := congrArg Node.db s.result
  have hflags : popped.db.transactions = node.db.transactions ↔
      ∀ e ∈ r.entries, MarksUnspent node.db e.tx.toTransactionPrefix := by
    have heq : popped.db.transactions = (unwindEntries env node.db r.entries node'.db).transactions := by
      rw [hresult, ← hdb]
    rw [heq]
    exact h.valid.valid.unwindEntries_transactions_eq_iff hsame htransactions
  rw [← hflags]
  refine ⟨SameContainers.transactions, fun heq => ?_⟩
  have hblocks : popped.db.blocks = node.db.blocks := by
    rw [s.blocks_eq, h.blocks_eq, List.dropLast_concat]
  have hindex : popped.db.blocksIndex = node.db.blocksIndex := by
    rw [s.blocksIndex_eq, hbei, h.bl_eq, h.blocksIndex_eq, erase_insert _ _ _ hfresh]
  have hledger : SameLedger popped.db s.afterPurge.db := by
    rw [hresult]
    exact ⟨rfl, rfl, rfl, rfl, rfl, fun _ => rfl, fun _ _ => rfl⟩
  have hback := hledger.trans hrestored
  exact ⟨hblocks, hindex, heq, hback.spentKeys, hback.outputs, hback.multisigOuts, hback.aliases,
    hback.addrToAlias⟩

/-- The pop succeeds when the pool takes all transactions back. -/
theorem AddedRecord.popBlock_ok {onboard : TransactionsMap} {node node' : Node} {bl : Block}
    {id : Hash} {r : BlockRecord} (h : AddedRecord env onboard node node' bl id r)
    (hD : LedgerWellFormed node.db) (hsize : node.db.size ≠ 0)
    (htaken : ∀ p ∈ r.processed, TakenBack p.entry.tx) :
    ∃ txs popped, popBlockFromBlockchain env node' = (.ok txs, popped) := by
  have hsame : SameLedger node'.db (applyEntries env r.entries node.db) := by
    rw [h.db_eq]
    exact sameLedger_pushBlock _ _ _ _
  have hlength : node'.db.size = node.db.size + 1 := by
    rw [Db.size, Db.size, h.blocks_eq, List.length_append]
    rfl
  have hids : (r.processed.map ProcessedTx.entry).map LedgerEntry.txId =
      r.bei.bl.txHashes.take r.bei.bl.txHashes.length := by
    rw [List.take_length, ← h.valid.txIds, List.map_map]
    rfl
  obtain ⟨txs, purged, hpurge, _⟩ := h.valid.valid.purgeBlockData hD hsame h.valid.coinbase_txId hids
    le_rfl ((h.valid.purgeable_iff (by omega)).mpr htaken)
  unfold popBlockFromBlockchain
  rw [bind_of_ok (by rw [check_apply, hlength, require, if_pos (by simpa using by omega)]), gets_bind,
    h.blocks_eq, List.getLast?_concat]
  dsimp only
  rw [bind_of_ok hpurge, modify_bind]
  exact ⟨_, _, rfl⟩

/-- A pop that fails leaves the block where it is. -/
theorem blocks_of_popBlock_error {node node' : Node} {failure : Failure}
    (h : popBlockFromBlockchain env node = (.error failure, node')) :
    node'.db.blocks = node.db.blocks := by
  unfold popBlockFromBlockchain at h
  by_cases hsize : node.db.size > 1
  · rw [bind_of_ok (by rw [check_apply, require, if_pos (by simpa using hsize)]), gets_bind] at h
    cases hlast : node.db.blocks.getLast? with
    | none =>
        rw [hlast] at h
        cases h
        rfl
    | some bei =>
        rw [hlast] at h
        dsimp only at h
        rw [bind_error_iff] at h
        rcases h with hpurge | ⟨_, _, _, hrest⟩
        · have hframe := (keeps_purgeBlockDataFromBlockchain env _ _).eq_of_run hpurge
          exact congrArg (fun frame => frame.1.1) hframe
        · rw [modify_bind] at hrest
          cases hrest
  · rw [bind_of_error (by rw [check_apply, require, if_neg (by simpa using hsize)])] at h
    cases h
    rfl

/-- When popping a block that was just added gives back the state before it. -/
theorem popBlock_restores_iff {now : Nat} {bl : Block} {onboard : TransactionsMap} {node node' : Node}
    (hreach : Reachable env node.db)
    (hrun : handleBlockToMainChain env now bl (env.crypto.getBlockHash bl) onboard node =
      (.ok .addedToMainChain, node')) :
    SameContainers (popBlockFromBlockchain env node').2.db node.db ↔
      (∀ tx ∈ givenTransactions env node onboard bl, TakenBack tx) ∧
        ∀ tx ∈ bl.minerTx :: givenTransactions env node onboard bl,
          MarksUnspent node.db tx.toTransactionPrefix := by
  obtain ⟨s⟩ := handleBlockToMainChain_added hrun
  obtain ⟨r, hr⟩ := s.record fun hzero => absurd hzero hreach.size_ne_zero
  obtain ⟨records, hist⟩ := hreach.history
  have hD := hist.wellFormed
  have htaken := hr.given_iff fun tx => tx.vout.length ≤ currencyTxMaxAllowedOuts ∧
    ∀ input ∈ tx.vin, input.amount ≠ 0
  have hmarks : (∀ e ∈ r.entries, MarksUnspent node.db e.tx.toTransactionPrefix) ↔
      ∀ tx ∈ bl.minerTx :: givenTransactions env node onboard bl,
        MarksUnspent node.db tx.toTransactionPrefix := by
    rw [List.forall_mem_cons, ← hr.given_iff (MarksUnspent node.db), BlockRecord.entries,
      List.forall_mem_cons, hr.valid.coinbase_tx, hr.bl_eq, List.forall_mem_map]
  rw [← hmarks]
  constructor
  · intro hsame
    rcases hpop : popBlockFromBlockchain env node' with ⟨failure | txs, popped⟩
    · rw [hpop] at hsame
      have hblocks := hsame.blocks
      dsimp only at hblocks
      rw [blocks_of_popBlock_error hpop, hr.blocks_eq] at hblocks
      have hlength := congrArg List.length hblocks
      rw [List.length_append, List.length_singleton] at hlength
      omega
    · rw [hpop] at hsame
      obtain ⟨hback, hiff⟩ := hr.popBlock s.fresh hD hpop
      exact ⟨htaken.mp hback, hiff.mp hsame⟩
  · rintro ⟨hback, hunspent⟩
    obtain ⟨txs, popped, hpop⟩ := hr.popBlock_ok hD hreach.size_ne_zero (htaken.mpr hback)
    rw [hpop]
    exact (hr.popBlock s.fresh hD hpop).2.mpr hunspent

/-- Eleven blocks, the one above the genesis block with a second output of
amount zero. -/
def zeroOutputBlocks : List Block :=
  samplePlainBlock 0 ::
    sampleBlock 0 1 1 [sampleMultisigOut currencyBlockReward, sampleMultisigOut 0] [] ::
      (List.range' 2 9).map samplePlainBlock

def zeroOutputNode : Node := (addBlocks sampleEnv 100000 ∅ zeroOutputBlocks emptyNode).getD emptyNode

theorem reachable_zeroOutputNode : Reachable sampleEnv zeroOutputNode.db := by
  have hrun : (addBlocks sampleEnv 100000 ∅ zeroOutputBlocks emptyNode).isSome = true := by
    decide +kernel
  exact reachable_of_isSome_addBlocks rfl hrun

/-- The next block, with one transaction. -/
def nextBlockWith (tx : Transaction) : Block :=
  sampleBlock 0 11 11 [sampleMultisigOut currencyBlockReward] [getTransactionHash sampleCrypto tx]

def addNextBlockWith (tx : Transaction) : Except Failure BlockVerdict × Node :=
  handleBlockToMainChain sampleEnv 100000 (nextBlockWith tx)
    (sampleEnv.crypto.getBlockHash (nextBlockWith tx))
    (Finmap.singleton (getTransactionHash sampleCrypto tx) tx) zeroOutputNode

/-- A transaction that spends the reward of block 1. -/
def rewardSpendTx : Transaction :=
  sampleMultisigTx 998 [sampleMultisigInput 0 1 currencyBlockReward]
    [sampleMultisigOut currencyBlockReward]

theorem popBlock_restores_rewardSpend :
    SameContainers (popBlockFromBlockchain sampleEnv (addNextBlockWith rewardSpendTx).2).2.db
      zeroOutputNode.db := by
  have hadd : (addNextBlockWith rewardSpendTx).1 = .ok .addedToMainChain := by decide +kernel
  have htaken : ∀ tx ∈ givenTransactions sampleEnv zeroOutputNode
      (Finmap.singleton (getTransactionHash sampleCrypto rewardSpendTx) rewardSpendTx)
      (nextBlockWith rewardSpendTx), TakenBack tx := by
    decide +kernel
  have hmarks : ∀ tx ∈ (nextBlockWith rewardSpendTx).minerTx :: givenTransactions sampleEnv
      zeroOutputNode (Finmap.singleton (getTransactionHash sampleCrypto rewardSpendTx) rewardSpendTx)
      (nextBlockWith rewardSpendTx), MarksUnspent zeroOutputNode.db tx.toTransactionPrefix := by
    decide +kernel
  unfold addNextBlockWith at hadd ⊢
  exact (popBlock_restores_iff reachable_zeroOutputNode (Prod.fst_eq_iff.mp hadd)).mpr
    ⟨htaken, hmarks⟩

/-- A transaction that spends the output of amount zero as well. -/
def zeroInputTx : Transaction :=
  sampleMultisigTx 999 [sampleMultisigInput 0 1 currencyBlockReward, sampleMultisigInput 0 1 0]
    [sampleMultisigOut currencyBlockReward]

theorem popBlock_keeps_zeroInput :
    Reachable sampleEnv zeroOutputNode.db ∧
      (addNextBlockWith zeroInputTx).1 = .ok .addedToMainChain ∧
      ¬ SameContainers (popBlockFromBlockchain sampleEnv (addNextBlockWith zeroInputTx).2).2.db
        zeroOutputNode.db := by
  have hadd : (addNextBlockWith zeroInputTx).1 = .ok .addedToMainChain := by decide +kernel
  have hsize : (popBlockFromBlockchain sampleEnv (addNextBlockWith zeroInputTx).2).2.db.blocks.length ≠
      zeroOutputNode.db.blocks.length := by
    decide +kernel
  exact ⟨reachable_zeroOutputNode, hadd, fun h => hsize (congrArg List.length h.blocks)⟩

end Chinet
