import Chinet.Storage.Registrations

/-!
# The history of a main chain

Every reachable database is the result of the blocks that are on the main chain,
each adding its coinbase and its transactions to the ledger of the blocks before
it.  Popping a block forgets it: what is left is the ledger before the block, up
to flags of key and HTLC outputs, and the history without it.
-/

namespace Chinet

open Procedure FiniteStore

variable {env : Env}

/-! ## The transactions of a block -/

/-- A transaction of a block, with what the totals count for it. -/
structure ProcessedTx where
  entry : LedgerEntry
  blobSize : Nat
  fee : UInt64

/-- The transaction that a block names: from the pool, else from those that came
with the block. -/
def givenTransaction (env : Env) (pool : FiniteStore Hash TxDetails) (onboard : TransactionsMap)
    (txId : Hash) : Option (Transaction × Nat × UInt64) :=
  ((pool.lookup txId).map fun td => (td.tx, td.blobSize, td.fee)) <|>
    getTxFromCache env txId onboard

/-- What the loop of `handle_block_to_main_chain` checks of a transaction alone. -/
structure TxProcessed (env : Env) (pool : FiniteStore Hash TxDetails) (onboard : TransactionsMap)
    (height : Nat) (p : ProcessedTx) : Prop where
  given : ∃ tx zone, givenTransaction env pool onboard p.entry.txId = some (tx, p.blobSize, p.fee) ∧
    p.entry.tx = pruneForCheckpointZone zone tx
  height_eq : p.entry.keeperBlockHeight = height
  semantic : validateTxSemantic env.crypto p.entry.tx.toTransactionPrefix p.blobSize = true
  terms : validateTxForHardforkSpecificTerms env p.entry.tx height = true

@[simp] theorem toTransactionPrefix_pruneForCheckpointZone (zone : Bool) (tx : Transaction) :
    (pruneForCheckpointZone zone tx).toTransactionPrefix = tx.toTransactionPrefix := by
  cases zone <;> rfl

theorem keeps_pool_addTransactionFromBlock (tx : Transaction) (txId : Hash) (height : Nat) :
    Keeps Node.pool (addTransactionFromBlock env tx txId height) := by
  refine (Keeps.check _).bind fun _ => Keeps.bind ?_ fun _ _ => rfl
  unfold processBlockchainTxExtra
  split
  · exact Keeps.fail _
  · exact Keeps.pure ()
  · exact ((keeps_prevalidateAliasInfo env tx _).comp fun store => store.2.1).bind fun _ _ => rfl

theorem checkBlockTransactionInputs_ok {now : Nat} {id txId : Hash} {taken : Bool}
    {tx : Transaction} {node node' : Node}
    (h : checkBlockTransactionInputs env now id txId taken tx node = (.ok (), node')) :
    node' = node ∧
      ∃ height, checkTxInputs env node.db node.isInCheckpointZone now tx txId = .ok height := by
  rw [checkBlockTransactionInputs, onReject_ok_iff, check_apply] at h
  obtain ⟨hcheck, rfl⟩ := Prod.mk.inj h
  rw [bind_eq_ok] at hcheck
  obtain ⟨height, hcheck, _⟩ := hcheck
  exact ⟨rfl, height, hcheck⟩

/-- One transaction of a block that is accepted. -/
structure TransactionAdded (env : Env) (onboard : TransactionsMap) (txId : Hash)
    (totals totals' : BlockTotals) (node node' : Node) (p : ProcessedTx) : Prop where
  txId_eq : p.entry.txId = txId
  processed : TxProcessed env node.pool onboard node.db.size p
  valid : EntryValid env node.db p.entry
  db_eq : node'.db = applyEntry env p.entry node.db
  pool_eq : node'.pool = node.pool.erase txId
  totals_eq : totals' = totals.add p.entry.tx p.blobSize p.fee

theorem addBlockTransaction_ok {now : Nat} {id txId : Hash} {onboard : TransactionsMap}
    {totals totals' : BlockTotals} {node node' : Node} (hsize : node.db.size ≠ 0)
    (h : addBlockTransaction env now id onboard totals txId node = (.ok totals', node')) :
    ∃ p, TransactionAdded env onboard txId totals totals' node node' p ∧
      TransactionRegistered env node node.db p.entry.tx := by
  have htake : poolTakeTx txId node =
      (.ok (node.pool.lookup txId), { node with pool := node.pool.erase txId }) := rfl
  unfold addBlockTransaction at h
  rw [bind_of_ok htake] at h
  dsimp only at h
  have hgiven : (((node.pool.lookup txId).map fun td => (td.tx, td.blobSize, td.fee)) <|>
      getTxFromCache env txId onboard) = givenTransaction env node.pool onboard txId := rfl
  rw [hgiven] at h
  rcases hgiven : givenTransaction env node.pool onboard txId with _ | ⟨tx, blobSize, fee⟩
  · rw [hgiven] at h
    cases h
  · rw [hgiven] at h
    dsimp only at h
    rw [check_bind_ok_iff] at h
    obtain ⟨_, hsemantic, h⟩ := h
    rw [gets_bind] at h
    dsimp only at h
    rw [bind_ok_iff] at h
    obtain ⟨_, n₁, hinputs, h⟩ := h
    obtain ⟨rfl, height, hinputs⟩ := checkBlockTransactionInputs_ok hinputs
    rw [gets_bind, bind_ok_iff] at h
    obtain ⟨_, n₂, hadd, h⟩ := h
    rw [onReject_ok_iff] at hadd
    cases h
    obtain ⟨indexes, haddable, hterms, hdb⟩ := addTransactionFromBlock_ok (fun _ _ _ => hsize) hadd
    refine ⟨⟨⟨txId, pruneForCheckpointZone node.isInCheckpointZone tx, node.db.size, indexes⟩,
      blobSize, fee⟩, ⟨rfl, ⟨⟨tx, node.isInCheckpointZone, hgiven, rfl⟩, rfl, ?_, hterms⟩,
      ⟨haddable, fun input hinput => (checkTxInputs_ok hinputs input hinput).1⟩, hdb, ?_, rfl⟩,
      fun ai hai hnew => ?_⟩
    · rw [toTransactionPrefix_pruneForCheckpointZone]
      simpa using hsemantic
    · exact (keeps_pool_addTransactionFromBlock _ txId node.db.size).eq_of_run hadd
    · exact (addTransactionFromBlock_registered hadd ai hai hnew).of_feeStep ⟨rfl, .inl rfl⟩

/-- The transactions of a block that is accepted. -/
structure TransactionsAdded (env : Env) (onboard : TransactionsMap) (txIds : List Hash)
    (totals totals' : BlockTotals) (node node' : Node) (ps : List ProcessedTx) : Prop where
  txIds_eq : ps.map (fun p => p.entry.txId) = txIds
  processed : ∀ p ∈ ps, TxProcessed env node.pool onboard node.db.size p
  valid : EntriesValid env node.db (ps.map ProcessedTx.entry)
  db_eq : node'.db = applyEntries env (ps.map ProcessedTx.entry) node.db
  totals_eq : totals' = ps.foldl (fun t p => t.add p.entry.tx p.blobSize p.fee) totals

theorem givenTransaction_erase {pool : FiniteStore Hash TxDetails} {onboard : TransactionsMap}
    {txId t : Hash} (ht : t ≠ txId) :
    givenTransaction env (pool.erase txId) onboard t = givenTransaction env pool onboard t := by
  rw [givenTransaction, lookup_erase_ite, if_neg ht, givenTransaction]

theorem addBlockTransactions_ok {now : Nat} {bl : Block} {id : Hash} {onboard : TransactionsMap}
    {n : Nat} {totals totals' : BlockTotals} {txIds : List Hash} {start node node' : Node}
    (hsize : node.db.size ≠ 0) (hstart : FeeStep start node)
    (h : addBlockTransactions env now bl id onboard n totals txIds node = (.ok totals', node')) :
    ∃ ps, TransactionsAdded env onboard txIds totals totals' node node' ps ∧
      EntriesRegistered env start node.db (ps.map ProcessedTx.entry) := by
  induction txIds generalizing n totals node with
  | nil =>
      cases h
      exact ⟨[], ⟨rfl, nofun, trivial, rfl, rfl⟩, trivial⟩
  | cons txId rest ih =>
      rw [addBlockTransactions, bind_ok_iff] at h
      obtain ⟨totals₁, n₁, hfirst, hrest⟩ := h
      rw [onReject_ok_iff] at hfirst
      obtain ⟨p, hp, hregistered⟩ := addBlockTransaction_ok hsize hfirst
      have hstep := (follows_addBlockTransaction env feeSteps now id onboard totals txId).rel_of_run hfirst
      have hsize₁ : n₁.db.size = node.db.size := by
        rw [hp.db_eq]
        exact size_of_chainView (applyEntry_chainView _ _ _)
      obtain ⟨ps, hps, hrestRegistered⟩ :=
        ih (by rw [hsize₁]; exact hsize) (IsTrans.trans _ _ _ hstart hstep) hrest
      rw [hp.db_eq] at hrestRegistered
      have hvalid : EntriesValid env node.db ((p :: ps).map ProcessedTx.entry) := by
        refine ⟨hp.valid, ?_⟩
        rw [← hp.db_eq]
        exact hps.valid
      refine ⟨p :: ps, ⟨?_, ?_, hvalid, ?_, ?_⟩,
        fun ai hai hnew => (hregistered ai hai hnew).of_feeStep hstart, hrestRegistered⟩
      · rw [List.map_cons, hp.txId_eq, hps.txIds_eq]
      · intro q hq
        rcases List.mem_cons.mp hq with rfl | hq
        · exact hp.processed
        · obtain ⟨⟨tx, zone, hgiven, htx⟩, hheight, hsemantic, hterms⟩ := hps.processed q hq
          rw [hsize₁] at hheight hterms
          refine ⟨⟨tx, zone, ?_, htx⟩, hheight, hsemantic, hterms⟩
          rw [hp.pool_eq, givenTransaction_erase] at hgiven
          · exact hgiven
          · rw [← hp.txId_eq]
            exact (hvalid.rest_ne _ (List.mem_map_of_mem hq)).symm
      · rw [List.map_cons, applyEntries, ← hp.db_eq, hps.db_eq]
      · rw [List.foldl_cons, ← hp.totals_eq, hps.totals_eq]

/-! ## Blocks -/

/-- A block of the main chain with its ledger entries. -/
structure BlockRecord where
  bei : BlockExtendedInfo
  coinbase : LedgerEntry
  processed : List ProcessedTx

def BlockRecord.entries (r : BlockRecord) : List LedgerEntry :=
  r.coinbase :: r.processed.map ProcessedTx.entry

/-- The totals of the block. -/
def BlockRecord.totals (env : Env) (r : BlockRecord) : BlockTotals :=
  r.processed.foldl (fun t p => t.add p.entry.tx p.blobSize p.fee) (coinbaseTotals env r.bei.bl)

/-- A block that was added on top of `D`. -/
structure BlockValid (env : Env) (D : Db) (r : BlockRecord) : Prop where
  coinbase_tx : r.coinbase.tx = r.bei.bl.minerTx
  coinbase_txId : r.coinbase.txId = getTransactionHash env.crypto r.bei.bl.minerTx
  coinbase_height : r.coinbase.keeperBlockHeight = D.size
  coinbase_terms : validateTxForHardforkSpecificTerms env r.bei.bl.minerTx D.size = true
  header : ∃ now id diff stakeHash, CheckedHeader env now r.bei.bl id D diff stakeHash
  txIds : r.processed.map (fun p => p.entry.txId) = r.bei.bl.txHashes
  processed : ∀ p ∈ r.processed, ∃ pool onboard, TxProcessed env pool onboard D.size p
  valid : EntriesValid env D r.entries
  info : ∃ id count baseReward, CheckedInfo env r.bei.bl id (r.totals env)
    (applyEntries env r.entries D) count r.bei baseReward

theorem BlockValid.keeperBlockHeight_eq {D : Db} {r : BlockRecord} (h : BlockValid env D r) :
    ∀ e ∈ r.entries, e.keeperBlockHeight = D.size := by
  intro e he
  rcases List.mem_cons.mp he with rfl | he
  · exact h.coinbase_height
  · obtain ⟨p, hp, rfl⟩ := List.mem_map.mp he
    obtain ⟨_, _, hprocessed⟩ := h.processed p hp
    exact hprocessed.height_eq

/-- What `handle_block_to_main_chain` adds. -/
structure AddedRecord (env : Env) (onboard : TransactionsMap) (node node' : Node) (bl : Block)
    (id : Hash) (r : BlockRecord) : Prop where
  bl_eq : r.bei.bl = bl
  height_eq : r.bei.height = node.db.size
  valid : BlockValid env node.db r
  given : ∀ p ∈ r.processed, TxProcessed env node.pool onboard node.db.size p
  db_eq : node'.db = pushBlock id r.bei (r.totals env).gindices
    (applyEntries env r.entries node.db)

/-- The record of a block, whose registrations were checked. -/
theorem AddedBlock.registeredRecord {now : Nat} {bl : Block} {id : Hash} {onboard : TransactionsMap}
    {node node' : Node} (s : AddedBlock env now bl id onboard node node')
    (hgenesis : node.db.size = 0 → bl.txHashes = []) :
    ∃ r, AddedRecord env onboard node node' bl id r ∧ EntriesRegistered env node node.db r.entries := by
  have hdb : s.afterHeader.db = node.db := congrArg Prod.fst s.store_afterHeader
  have hpool : s.afterHeader.pool = node.pool := congrArg (fun store => store.2.1) s.store_afterHeader
  have hno := s.checkedHeader.no_multisig
  obtain ⟨indexes, haddable, hterms, hcoinbase⟩ := addTransactionFromBlock_ok
    (fun input hinput hid => absurd hid (by rw [hno input hinput]; simp)) s.coinbase
  rw [hdb] at haddable hcoinbase
  -- the coinbase as the first entry
  let c : LedgerEntry := ⟨getTransactionHash env.crypto bl.minerTx, bl.minerTx, node.db.size, indexes⟩
  have hsize : s.afterCoinbase.db.size = node.db.size := by
    rw [hcoinbase]
    exact size_of_chainView (applyEntry_chainView _ _ _)
  have hpool₁ : s.afterCoinbase.pool = node.pool := by
    rw [← hpool]
    exact (keeps_pool_addTransactionFromBlock _ _ _).eq_of_run s.coinbase
  have hheader := (follows_checkBlockHeader env feeSteps.storeSteps now bl id).rel_of_run s.header
  have hstep := (follows_addTransactionFromBlock env feeSteps bl.minerTx _ node.db.size).rel_of_run s.coinbase
  obtain ⟨ps, hps, hpsRegistered⟩ : ∃ ps, TransactionsAdded env onboard bl.txHashes
      (coinbaseTotals env bl) s.totals s.afterCoinbase s.afterTransactions ps ∧
        EntriesRegistered env node s.afterCoinbase.db (ps.map ProcessedTx.entry) := by
    by_cases hzero : node.db.size = 0
    · have htxs := s.transactions
      rw [hgenesis hzero] at htxs ⊢
      obtain ⟨htotals, hdb⟩ := Prod.mk.inj htxs
      exact ⟨[], ⟨rfl, nofun, trivial, congrArg Node.db hdb.symm, (Except.ok.inj htotals).symm⟩,
        trivial⟩
    · exact addBlockTransactions_ok (by rw [hsize]; exact hzero)
        (IsTrans.trans _ _ _ hheader hstep) s.transactions
  have hcoinbaseRegistered : TransactionRegistered env node node.db bl.minerTx := by
    intro ai hai hnew
    rw [← hdb] at hnew
    exact (addTransactionFromBlock_registered s.coinbase ai hai hnew).of_feeStep hheader
  have hentries : EntriesValid env node.db (c :: ps.map ProcessedTx.entry) := by
    refine ⟨⟨haddable, fun input hinput => (s.checkedHeader.inputs input hinput).1⟩, ?_⟩
    rw [← hcoinbase]
    exact hps.valid
  have happlied : s.afterTransactions.db =
      applyEntries env (c :: ps.map ProcessedTx.entry) node.db := by
    rw [applyEntries, ← hcoinbase, hps.db_eq]
  have hbl : s.bei.bl = bl := by rw [s.header_eq]; rfl
  have hprocessed : ∀ p ∈ ps, TxProcessed env node.pool onboard node.db.size p := by
    rw [← hpool₁, ← hsize]
    exact hps.processed
  have htotals : s.totals = BlockRecord.totals env ⟨s.bei, c, ps⟩ := by
    rw [hps.totals_eq, BlockRecord.totals, hbl]
  have hvalid : BlockValid env node.db ⟨s.bei, c, ps⟩ := {
    coinbase_tx := by rw [hbl]
    coinbase_txId := by rw [hbl]
    coinbase_height := rfl
    coinbase_terms := by rw [hbl]; exact hterms
    header := by rw [hbl]; exact ⟨now, id, s.currentDiffic, s.stakeHash, s.checkedHeader⟩
    txIds := by rw [hbl]; exact hps.txIds_eq
    processed := fun p hp => ⟨node.pool, onboard, hprocessed p hp⟩
    valid := hentries
    info := by
      obtain ⟨baseReward, hinfo⟩ := (makeBlockExtendedInfo_ok s.info).2
      rw [happlied, htotals] at hinfo
      rw [hbl]
      exact ⟨id, _, baseReward, hinfo⟩ }
  refine ⟨⟨s.bei, c, ps⟩, ⟨hbl, s.height_eq, hvalid, hprocessed, ?_⟩, hcoinbaseRegistered, ?_⟩
  · rw [s.db_eq, happlied, htotals]
    rfl
  · rw [← hcoinbase]
    exact hpsRegistered

theorem AddedBlock.record {now : Nat} {bl : Block} {id : Hash} {onboard : TransactionsMap}
    {node node' : Node} (s : AddedBlock env now bl id onboard node node')
    (hgenesis : node.db.size = 0 → bl.txHashes = []) :
    ∃ r, AddedRecord env onboard node node' bl id r := by
  obtain ⟨r, hr, _⟩ := s.registeredRecord hgenesis
  exact ⟨r, hr⟩

/-! ## Histories -/

/-- The blocks of a main chain in their order and a database they lead to. -/
inductive History (env : Env) : List BlockRecord → Db → Prop
  | empty {db : Db} (hsame : SameLedger db Db.empty) (hblocks : db.blocks = []) : History env [] db
  | snoc {records : List BlockRecord} {D db : Db} {r : BlockRecord} (hist : History env records D)
      (hvalid : BlockValid env D r) (hsame : SameLedger db (applyEntries env r.entries D))
      (hblocks : db.blocks = D.blocks ++ [r.bei]) : History env (records ++ [r]) db

namespace History

variable {records : List BlockRecord} {db : Db}

theorem blocks_eq (h : History env records db) : db.blocks = records.map BlockRecord.bei := by
  induction h with
  | empty hsame hblocks => exact hblocks
  | snoc hist hvalid hsame hblocks ih =>
      rw [hblocks, ih, List.map_append]
      rfl

/-- A history does not depend on the flags of key and HTLC outputs. -/
theorem congr {db' : Db} (h : History env records db) (hsame : SameLedger db' db)
    (hblocks : db'.blocks = db.blocks) : History env records db' := by
  cases h with
  | empty hempty hnil => exact empty (hsame.trans hempty) (hblocks.trans hnil)
  | snoc hist hvalid hsame' hblocks' =>
      exact snoc hist hvalid (hsame.trans hsame') (hblocks.trans hblocks')

theorem wellFormed (h : History env records db) : LedgerWellFormed db := by
  induction h with
  | empty hsame hblocks => exact hsame.wellFormed LedgerWellFormed.empty
  | snoc hist hvalid hsame hblocks ih => exact hsame.wellFormed (hvalid.valid.wellFormed ih)

end History

theorem sameLedger_pushBlock (id : Hash) (bei : BlockExtendedInfo) (gindices : FiniteStore UInt64 Nat)
    (db : Db) : SameLedger (pushBlock id bei gindices db) db :=
  ⟨rfl, rfl, rfl, rfl, rfl, fun _ => rfl, fun _ _ => rfl⟩

/-- Adding a block extends the history. -/
theorem AddedRecord.history {onboard : TransactionsMap} {node node' : Node} {bl : Block} {id : Hash}
    {r : BlockRecord} (h : AddedRecord env onboard node node' bl id r) {records : List BlockRecord}
    (hist : History env records node.db) : History env (records ++ [r]) node'.db := by
  refine hist.snoc h.valid ?_ ?_
  · rw [h.db_eq]
    exact sameLedger_pushBlock _ _ _ _
  · have hview := @applyEntries_chainView env r.entries node.db
    rw [h.db_eq, pushBlock]
    exact congrArg (fun view => view.1 ++ [r.bei]) hview

/-- The transactions of the last block are purged from the last one down. -/
theorem BlockValid.purge_ok {D : Db} {r : BlockRecord} (hvalid : BlockValid env D r)
    (hD : LedgerWellFormed D) {node node' : Node}
    (hsame : SameLedger node.db (applyEntries env r.entries D)) {txs : TransactionsMap}
    (hrun : purgeBlockDataFromBlockchain env r.bei.bl r.bei.bl.txHashes.length node =
      (.ok txs, node')) :
    (∀ e ∈ r.entries, Purgeable env node.db.size e.tx) ∧
      node'.db = unwindEntries env D r.entries node.db := by
  have hids : (r.processed.map ProcessedTx.entry).map LedgerEntry.txId =
      r.bei.bl.txHashes.take r.bei.bl.txHashes.length := by
    rw [List.take_length, ← hvalid.txIds, List.map_map]
    rfl
  have hpool := hvalid.valid.purgeable_of_purgeBlockData hD hsame hvalid.coinbase_txId hids hrun
  obtain ⟨txs', node'', hpurge, hdb⟩ :=
    hvalid.valid.purgeBlockData hD hsame hvalid.coinbase_txId hids le_rfl hpool
  rw [hpurge] at hrun
  cases hrun
  exact ⟨hpool, hdb⟩

/-- Popping a block takes its record off the history. -/
theorem PoppedBlock.history_concat {onboard : TransactionsMap} {node node' : Node}
    (s : PoppedBlock env onboard node node') {records : List BlockRecord} {r : BlockRecord}
    (hist : History env (records ++ [r]) node.db) : History env records node'.db := by
  generalize hconcat : records ++ [r] = all at hist
  cases hist with
  | empty hsame hblocks => exact absurd hconcat (List.append_ne_nil_of_right_ne_nil _ (by simp))
  | @snoc records' D _ r' hist hvalid hsame hblocks =>
      obtain ⟨rfl, hr⟩ := List.append_inj' hconcat rfl
      obtain rfl : r = r' := List.head_eq_of_cons_eq hr
      have hbei : s.bei = r.bei := by
        have hlast := s.last
        rw [hblocks, List.getLast?_concat] at hlast
        exact (Option.some.inj hlast).symm
      have hpurge := s.purge
      rw [hbei] at hpurge
      obtain ⟨_, hdb⟩ := hvalid.purge_ok hist.wellFormed hsame hpurge
      have hsame' : SameLedger node'.db s.afterPurge.db := by
        have hresult := congrArg Node.db s.result
        rw [hresult]
        exact ⟨rfl, rfl, rfl, rfl, rfl, fun _ => rfl, fun _ _ => rfl⟩
      have hrestored : SameLedger s.afterPurge.db D := by
        rw [hdb]
        exact sameLedger_unwindEntries hvalid.valid hsame
      refine hist.congr (hsame'.trans hrestored) ?_
      rw [s.blocks_eq, hblocks, List.dropLast_concat]

/-- A chain with a block to pop has a last record. -/
theorem PoppedBlock.records_concat {onboard : TransactionsMap} {node node' : Node}
    (s : PoppedBlock env onboard node node') {records : List BlockRecord}
    (hist : History env records node.db) : ∃ records' r, records = records' ++ [r] := by
  rcases List.eq_nil_or_concat records with hnil | ⟨records', r, hconcat⟩
  · have hlast := s.last
    rw [hist.blocks_eq, hnil] at hlast
    cases hlast
  · exact ⟨records', r, by rw [hconcat, List.concat_eq_append]⟩

theorem PoppedBlock.history {onboard : TransactionsMap} {node node' : Node}
    (s : PoppedBlock env onboard node node') {records : List BlockRecord}
    (hist : History env records node.db) : ∃ records', History env records' node'.db := by
  obtain ⟨records', r, rfl⟩ := s.records_concat hist
  exact ⟨records', s.history_concat hist⟩

theorem Reachable.size_ne_zero {db : Db} (h : Reachable env db) : db.size ≠ 0 := by
  cases h with
  | genesis hempty htxs hrun =>
      obtain ⟨s⟩ := handleBlockToMainChain_added hrun
      simp [Db.size, s.blocks_eq]
  | addBlock hreach hrun =>
      obtain ⟨s⟩ := handleBlockToMainChain_added hrun
      simp [Db.size, s.blocks_eq]
  | popBlock hreach hrun =>
      obtain ⟨s⟩ := popBlockFromBlockchain_ok hrun
      have hsize := s.size_gt
      rw [Db.size] at hsize ⊢
      rw [s.blocks_eq, List.length_dropLast]
      omega

/-- Every reachable main chain has a history. -/
theorem Reachable.history {db : Db} (h : Reachable env db) : ∃ records, History env records db := by
  induction h with
  | @genesis now bl onboard node node' hempty htxs hrun =>
      obtain ⟨s⟩ := handleBlockToMainChain_added hrun
      obtain ⟨r, hr⟩ := s.record fun _ => htxs
      refine ⟨_, hr.history (History.empty ?_ ?_)⟩
      · rw [hempty]
        exact SameLedger.refl _
      · rw [hempty]
        rfl
  | @addBlock now bl onboard node node' hreach hrun ih =>
      obtain ⟨records, hist⟩ := ih
      obtain ⟨s⟩ := handleBlockToMainChain_added hrun
      obtain ⟨r, hr⟩ := s.record fun hzero => absurd hzero hreach.size_ne_zero
      exact ⟨_, hr.history hist⟩
  | popBlock hreach hrun ih =>
      obtain ⟨records, hist⟩ := ih
      obtain ⟨s⟩ := popBlockFromBlockchain_ok hrun
      exact s.history hist

end Chinet
