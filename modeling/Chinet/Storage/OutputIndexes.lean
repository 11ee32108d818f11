import Chinet.Storage.PlacedOutputs

/-!
# The global indexes of a transaction

`push_transaction_to_global_outs_index` returns where it puts the outputs of a transaction, and
`add_transaction_from_block` stores these numbers with the transaction, for
`get_tx_outputs_gindexs` to hand out.  The index of an amount only grows and shrinks at its end,
so on every reachable chain the stored numbers are still the positions of the outputs, and every
position is the stored number of one output.
-/

namespace Chinet

open Procedure FiniteStore

variable {env : Env}

/-- `get_tx_outputs_gindexs`. -/
def getTxOutputsGindexs (db : Db) (txId : Hash) : Option (List Nat) :=
  match db.transactions.lookup txId with
  | none => none
  | some entry =>
      if entry.globalOutputIndexes.length = 0 then none else some entry.globalOutputIndexes

/-! ## The numbers of one transaction -/

/-- Each key or HTLC output from number `i` on stands at its number in the index of its amount. -/
structure IndexesFound (outputs : UInt64 → List GlobalOutputEntry) (txId : Hash) (i : Nat)
    (outs : List TxOut) (indexes : List Nat) : Prop where
  length : indexes.length = outs.length
  found : ∀ (k : Nat) (out : TxOut) (g : Nat), outs[k]? = some out →
    out.target.isIndexed = true → indexes[k]? = some g →
    (outputs out.amount)[g]? = some { txId, outNo := i + k }

theorem pushTransactionOutput_index {tx : Transaction} {txId : Hash} {i index : Nat} {out : TxOut}
    {db db' : Db} (h : pushTransactionOutput env tx txId i out db = (.ok index, db'))
    (hindexed : out.target.isIndexed = true) :
    (db'.outputs out.amount)[index]? = some { txId, outNo := i } := by
  rw [pushTransactionOutput, if_pos hindexed, modify_bind, check_bind_ok_iff] at h
  obtain ⟨_, _, h⟩ := h
  cases h
  simp [pushOutput]

theorem pushTransactionOutputs_indexes {tx : Transaction} {txId : Hash} {i : Nat} {outs : List TxOut}
    {indexes : List Nat} {db db' : Db}
    (h : pushTransactionOutputs env tx txId i outs db = (.ok indexes, db')) :
    IndexesFound db'.outputs txId i outs indexes := by
  induction outs generalizing i indexes db with
  | nil =>
      cases h
      refine ⟨rfl, fun k out g hout => ?_⟩
      cases hout
  | cons out rest ih =>
      rw [pushTransactionOutputs, bind_ok_iff] at h
      obtain ⟨index, db₁, hfirst, h⟩ := h
      rw [bind_ok_iff] at h
      obtain ⟨tail, db₂, hrest, h⟩ := h
      cases h
      have htail := ih hrest
      refine ⟨congrArg Nat.succ htail.length, fun k out' g hout hindexed hg => ?_⟩
      cases k with
      | zero =>
          cases hout
          cases hg
          -- the outputs behind it do not move it
          have hput := pushTransactionOutput_index hfirst hindexed
          have hlater := (pushTransactionOutputs_ok_iff.mp ⟨tail, hrest⟩).2
          rw [hlater, storeOutputsFrom]
          dsimp only
          rw [List.getElem?_append_left (List.getElem?_eq_some_iff.mp hput).1, hput, Nat.add_zero]
      | succ k =>
          rw [List.getElem?_cons_succ] at hout hg
          rw [htail.found k out' g hout hindexed hg]
          congr 2
          omega

/-- What `add_transaction_from_block` does last. -/
theorem addTransactionFromBlock_stores {tx : Transaction} {txId : Hash} {height : Nat}
    {node node' : Node} (h : addTransactionFromBlock env tx txId height node = (.ok (), node')) :
    ∃ db, storeTransaction env tx txId height db = (.ok (), node'.db) := by
  unfold addTransactionFromBlock at h
  rw [check_bind_ok_iff] at h
  obtain ⟨_, _, h⟩ := h
  rw [bind_ok_iff] at h
  obtain ⟨_, n, _, h⟩ := h
  rw [NodeProcedure.onDb, onPart_ok_iff] at h
  obtain ⟨db', h, rfl⟩ := h
  rw [bind_ok_iff] at h
  obtain ⟨_, _, _, h⟩ := h
  rw [bind_ok_iff] at h
  obtain ⟨_, db, _, h⟩ := h
  exact ⟨db, h⟩

/-! ## The numbers of all transactions -/

/-- The stored numbers of every transaction are the positions of its outputs. -/
def IndexesStored (db : Db) : Prop :=
  ∀ txId entry, db.transactions.lookup txId = some entry →
    IndexesFound db.outputs txId 0 entry.tx.vout entry.globalOutputIndexes

theorem lookup_of_core {ts ts' : FiniteStore Hash TransactionChainEntry} {txId : Hash}
    {entry : TransactionChainEntry} (h : ts'.lookup txId = some entry)
    (hcore : (ts'.lookup txId).map TransactionChainEntry.core =
      (ts.lookup txId).map TransactionChainEntry.core) :
    ∃ entry', ts.lookup txId = some entry' ∧ entry'.tx = entry.tx ∧
      entry'.keeperBlockHeight = entry.keeperBlockHeight ∧
      entry'.globalOutputIndexes = entry.globalOutputIndexes := by
  rw [h, Option.map_some, eq_comm] at hcore
  obtain ⟨entry', hentry', hsame⟩ := Option.map_eq_some_iff.mp hcore
  exact ⟨entry', hentry', congrArg Prod.fst hsame, congrArg (fun core => core.2.1) hsame,
    congrArg (fun core => core.2.2.1) hsame⟩

theorem IndexesFound.append {outputs outputs' : UInt64 → List GlobalOutputEntry} {txId : Hash}
    {i : Nat} {outs : List TxOut} {indexes : List Nat} (h : IndexesFound outputs txId i outs indexes)
    (hgrow : ∀ amount, outputs amount <+: outputs' amount) :
    IndexesFound outputs' txId i outs indexes := by
  refine ⟨h.length, fun k out g hout hindexed hg => ?_⟩
  have hold := h.found k out g hout hindexed hg
  obtain ⟨added, hadded⟩ := hgrow out.amount
  rw [← hadded, List.getElem?_append_left (List.getElem?_eq_some_iff.mp hold).1, hold]

/-- A transaction that is added gets its own numbers, and those of the others stay right. -/
theorem IndexesStored.addTransaction {tx : Transaction} {txId : Hash} {height : Nat}
    {node node' : Node} (h : IndexesStored node.db) (hheight : MultisigAboveGenesis tx.vin height)
    (hrun : addTransactionFromBlock env tx txId height node = (.ok (), node')) :
    IndexesStored node'.db := by
  obtain ⟨indexes, _, _, hdb⟩ := addTransactionFromBlock_ok hheight hrun
  intro t entry hentry
  by_cases ht : t = txId
  · subst ht
    obtain ⟨db, hstore⟩ := addTransactionFromBlock_stores hrun
    rw [storeTransaction, bind_ok_iff] at hstore
    obtain ⟨pushed, db₁, hpush, hstore⟩ := hstore
    rw [modify_apply] at hstore
    have hresult := (Prod.mk.inj hstore).2
    rw [← hresult] at hentry ⊢
    rw [lookup_insert_ite, if_pos rfl] at hentry
    cases hentry
    have hfound : IndexesFound db₁.outputs t 0 tx.vout pushed := pushTransactionOutputs_indexes hpush
    exact hfound
  · have hcore := @core_applyEntry env ⟨txId, tx, height, indexes⟩ node.db _ ht
    rw [← hdb] at hcore
    obtain ⟨entry', hentry', htx, _, hindexes⟩ := lookup_of_core hentry hcore
    rw [← htx, ← hindexes]
    refine (h t entry' hentry').append fun amount => ?_
    rw [hdb, applyEntry_outputs]
    exact List.prefix_append _ _

theorem IndexesStored.addBlockTransactions {now : Nat} {bl : Block} {id : Hash}
    {onboard : TransactionsMap} {n : Nat} {totals totals' : BlockTotals} {txIds : List Hash}
    {node node' : Node} (h : IndexesStored node.db) (hsize : node.db.size ≠ 0)
    (hrun : addBlockTransactions env now bl id onboard n totals txIds node = (.ok totals', node')) :
    IndexesStored node'.db := by
  induction txIds generalizing n totals node with
  | nil =>
      cases hrun
      exact h
  | cons txId rest ih =>
      rw [Chinet.addBlockTransactions, bind_ok_iff] at hrun
      obtain ⟨totals₁, n₁, hfirst, hrest⟩ := hrun
      rw [onReject_ok_iff] at hfirst
      have hframe := (keeps_addBlockTransaction env now id onboard totals txId).eq_of_run hfirst
      have hsize₁ : n₁.db.size = node.db.size :=
        size_of_chainView (congrArg Prod.fst hframe)
      refine ih ?_ (by rw [hsize₁]; exact hsize) hrest
      -- what leads up to `add_transaction_from_block` takes from the pool only
      have htake : poolTakeTx txId node =
          (.ok (node.pool.lookup txId), { node with pool := node.pool.erase txId }) := rfl
      unfold addBlockTransaction at hfirst
      rw [bind_of_ok htake] at hfirst
      dsimp only at hfirst
      rcases hgiven : (((node.pool.lookup txId).map fun td => (td.tx, td.blobSize, td.fee)) <|>
          getTxFromCache env txId onboard) with _ | ⟨tx, blobSize, fee⟩
      · rw [hgiven] at hfirst
        cases hfirst
      · rw [hgiven] at hfirst
        dsimp only at hfirst
        rw [check_bind_ok_iff] at hfirst
        obtain ⟨_, _, hfirst⟩ := hfirst
        rw [gets_bind, bind_ok_iff] at hfirst
        obtain ⟨_, n₂, hinputs, hfirst⟩ := hfirst
        obtain ⟨rfl, _⟩ := checkBlockTransactionInputs_ok hinputs
        rw [gets_bind, bind_ok_iff] at hfirst
        obtain ⟨_, n₃, hadd, hfirst⟩ := hfirst
        rw [onReject_ok_iff] at hadd
        cases hfirst
        have hpool : IndexesStored ({ node with pool := node.pool.erase txId } : Node).db := h
        exact hpool.addTransaction (fun _ _ _ => hsize) hadd

theorem AddedBlock.indexesStored {now : Nat} {bl : Block} {id : Hash} {onboard : TransactionsMap}
    {node node' : Node} (s : AddedBlock env now bl id onboard node node')
    (hgenesis : node.db.size = 0 → bl.txHashes = []) (h : IndexesStored node.db) :
    IndexesStored node'.db := by
  have hdb : s.afterHeader.db = node.db := congrArg Prod.fst s.store_afterHeader
  have hno := s.checkedHeader.no_multisig
  have hcoinbase : IndexesStored s.afterCoinbase.db := by
    refine IndexesStored.addTransaction (by rw [hdb]; exact h) (fun input hinput hid => ?_) s.coinbase
    rw [hno input hinput] at hid
    cases hid
  have hsize : s.afterCoinbase.db.size = node.db.size := by
    rw [← hdb]
    exact size_of_chainView
      (congrArg Prod.fst ((keeps_addTransactionFromBlock env _ _ _).eq_of_run s.coinbase))
  have htransactions : IndexesStored s.afterTransactions.db := by
    by_cases hzero : node.db.size = 0
    · have hrun := s.transactions
      rw [hgenesis hzero] at hrun
      rw [← congrArg Node.db (Prod.mk.inj hrun).2]
      exact hcoinbase
    · exact hcoinbase.addBlockTransactions (by rw [hsize]; exact hzero) s.transactions
  rw [s.db_eq]
  exact htransactions

/-! ## Positions and outputs -/

/-- An entry of the index of an amount, and the output it stands for. -/
theorem mem_indexEntries_iff {txId : Hash} {amount : UInt64} {i : Nat} {outs : List TxOut}
    {g : GlobalOutputEntry} : g ∈ indexEntries txId amount i outs ↔
      g.txId = txId ∧ i ≤ g.outNo ∧ ∃ out, outs[g.outNo - i]? = some out ∧
        out.target.isIndexed = true ∧ out.amount = amount := by
  induction outs generalizing i with
  | nil => simp [indexEntries]
  | cons out rest ih =>
      rw [indexEntries, List.mem_append, ih]
      constructor
      · rintro (hfirst | ⟨htx, hle, out', hout', hsame⟩)
        · split at hfirst
          · rename_i hout
            rw [List.mem_singleton.mp hfirst]
            exact ⟨rfl, le_rfl, out, by simp, hout⟩
          · cases hfirst
        · refine ⟨htx, by omega, out', ?_, hsame⟩
          rw [show g.outNo - i = g.outNo - (i + 1) + 1 by omega, List.getElem?_cons_succ, hout']
      · rintro ⟨htx, hle, out', hout', hsame⟩
        rcases Nat.eq_or_lt_of_le hle with heq | hlt
        · rw [← heq, Nat.sub_self] at hout'
          cases hout'
          rw [if_pos hsame, List.mem_singleton]
          obtain ⟨txId', outNo⟩ := g
          cases htx
          cases heq
          exact Or.inl rfl
        · rw [show g.outNo - i = g.outNo - (i + 1) + 1 by omega, List.getElem?_cons_succ] at hout'
          exact Or.inr ⟨htx, hlt, out', hout', hsame⟩

theorem nodup_indexEntries (txId : Hash) (amount : UInt64) (i : Nat) (outs : List TxOut) :
    (indexEntries txId amount i outs).Nodup := by
  induction outs generalizing i with
  | nil => exact List.nodup_nil
  | cons out rest ih =>
      rw [indexEntries, List.nodup_append]
      refine ⟨?_, ih (i + 1), ?_⟩
      · split
        · exact List.nodup_singleton _
        · exact List.nodup_nil
      · rintro g hfirst _ hrest rfl
        have hlater := (mem_indexEntries_iff.mp hrest).2.1
        split at hfirst
        · rw [List.mem_singleton.mp hfirst] at hlater
          exact absurd hlater (by simp)
        · cases hfirst

namespace Ledger

variable {es : List LedgerEntry} {db : Db}

/-- Every stored transaction is an entry of the ledger. -/
theorem exists_entry (h : Ledger env es db) {txId : Hash} {entry : TransactionChainEntry}
    (hentry : db.transactions.lookup txId = some entry) :
    ∃ e ∈ es, e.txId = txId ∧ e.tx = entry.tx := by
  induction h generalizing entry with
  | empty hsame =>
      have hcore := hsame.core txId
      rw [hentry] at hcore
      cases hcore
  | @snoc es D db e hist hvalid hsame ih =>
      have hcore := hsame.core txId
      by_cases ht : txId = e.txId
      · rw [hentry, applyEntry_transactions, lookup_insert_ite, if_pos ht] at hcore
        have htx : e.tx = entry.tx := (congrArg Prod.fst (Option.some.inj hcore)).symm
        exact ⟨e, List.mem_append_right _ List.mem_cons_self, ht.symm, htx⟩
      · rw [core_applyEntry ht] at hcore
        obtain ⟨entry', hentry', htx, _⟩ := lookup_of_core hentry hcore
        obtain ⟨e', he', hid, htx'⟩ := ih hentry'
        exact ⟨e', List.mem_append_left _ he', hid, htx'.trans htx⟩

theorem lookup_entry (h : Ledger env es db) {e : LedgerEntry} (he : e ∈ es) :
    ∃ entry, db.transactions.lookup e.txId = some entry ∧ entry.tx = e.tx := by
  obtain ⟨entry, hentry, htx⟩ := Option.map_eq_some_iff.mp (h.lookup_tx e he)
  exact ⟨entry, hentry, htx⟩

/-- What the index of an amount lists are the key and HTLC outputs of the ledger. -/
theorem mem_outputs_iff (h : Ledger env es db) {amount : UInt64} {g : GlobalOutputEntry} :
    g ∈ db.outputs amount ↔ ∃ entry out, db.transactions.lookup g.txId = some entry ∧
      entry.tx.vout[g.outNo]? = some out ∧ out.target.isIndexed = true ∧ out.amount = amount := by
  rw [h.outputs_eq, List.mem_flatMap]
  simp only [mem_indexEntries_iff, Nat.zero_le, true_and, Nat.sub_zero]
  constructor
  · rintro ⟨e, he, hid, out, hout, hsame⟩
    obtain ⟨entry, hentry, htx⟩ := h.lookup_entry he
    exact ⟨entry, out, by rw [hid, hentry], by rw [htx, hout], hsame⟩
  · rintro ⟨entry, out, hentry, hout, hsame⟩
    obtain ⟨e, he, hid, htx⟩ := h.exists_entry hentry
    exact ⟨e, he, hid.symm, out, by rw [htx, hout], hsame⟩

/-- No output is listed twice. -/
theorem nodup_outputs (h : Ledger env es db) (amount : UInt64) : (db.outputs amount).Nodup := by
  induction h with
  | empty hsame =>
      rw [hsame.outputs]
      exact List.nodup_nil
  | @snoc es D db e hist hvalid hsame ih =>
      rw [hsame.outputs, applyEntry_outputs, List.nodup_append]
      refine ⟨ih, nodup_indexEntries _ _ _ _, ?_⟩
      rintro g hold _ hnew rfl
      obtain ⟨entry, _, hentry, _⟩ := hist.mem_outputs_iff.mp hold
      rw [(mem_indexEntries_iff.mp hnew).1, hvalid.addable.fresh] at hentry
      cases hentry

theorem position_unique (h : Ledger env es db) {amount : UInt64} {i j : Nat} {g : GlobalOutputEntry}
    (hi : (db.outputs amount)[i]? = some g) (hj : (db.outputs amount)[j]? = some g) : i = j :=
  (List.getElem?_inj (List.getElem?_eq_some_iff.mp hi).1 (h.nodup_outputs amount)).mp
    (hi.trans hj.symm)

end Ledger

/-- Taking the last block away leaves the numbers of the other transactions right. -/
theorem PoppedBlock.indexesStored {onboard : TransactionsMap} {node node' : Node}
    (s : PoppedBlock env onboard node node') {records : List BlockRecord}
    (hist : History env records node.db) (h : IndexesStored node.db) : IndexesStored node'.db := by
  obtain ⟨records', r, rfl⟩ := s.records_concat hist
  have hist' := s.history_concat hist
  have hledger := hist.ledger
  rw [List.flatMap_append, List.flatMap_singleton] at hledger
  have hgrow : ∀ amount, node'.db.outputs amount <+: node.db.outputs amount := by
    intro amount
    rw [hledger.outputs_eq, hist'.ledger.outputs_eq, List.flatMap_append]
    exact List.prefix_append _ _
  intro txId entry hentry
  obtain ⟨e, he, rfl, htx⟩ := hist'.ledger.exists_entry hentry
  -- the transaction is the same on both chains
  have hcore := (hledger.lookup_core e (List.mem_append_left _ he)).trans
    (hist'.ledger.lookup_core e he).symm
  obtain ⟨entry', hentry', htx', _, hindexes⟩ := lookup_of_core hentry hcore.symm
  have hfound := h e.txId entry' hentry'
  rw [htx', hindexes] at hfound
  refine ⟨hfound.length, fun k out g hout hindexed hg => ?_⟩
  have hbefore := hfound.found k out g hout hindexed hg
  have hlisted : { txId := e.txId, outNo := k : GlobalOutputEntry } ∈ node'.db.outputs out.amount :=
    hist'.ledger.mem_outputs_iff.mpr ⟨entry, out, hentry, hout, hindexed, rfl⟩
  obtain ⟨i, hi⟩ := List.getElem?_of_mem hlisted
  obtain ⟨above, habove⟩ := hgrow out.amount
  have hstill : (node.db.outputs out.amount)[i]? = some { txId := e.txId, outNo := k } := by
    rw [← habove, List.getElem?_append_left (List.getElem?_eq_some_iff.mp hi).1, hi]
  rw [Nat.zero_add] at hbefore ⊢
  rw [hledger.position_unique hbefore hstill, hi]

/-! ## Reachable chains -/

theorem Reachable.indexesStored {db : Db} (h : Reachable env db) : IndexesStored db := by
  induction h with
  | @genesis now bl onboard node node' hempty htxs hrun =>
      obtain ⟨s⟩ := handleBlockToMainChain_added hrun
      refine s.indexesStored (fun _ => htxs) fun txId entry hentry => ?_
      rw [hempty] at hentry
      cases hentry
  | addBlock hreach hrun ih =>
      obtain ⟨s⟩ := handleBlockToMainChain_added hrun
      exact s.indexesStored (fun hzero => absurd hzero hreach.size_ne_zero) ih
  | popBlock hreach hrun ih =>
      obtain ⟨s⟩ := popBlockFromBlockchain_ok hrun
      obtain ⟨records, hist⟩ := hreach.history
      exact s.indexesStored hist ih

/-- The numbers that `get_tx_outputs_gindexs` returns for key and HTLC outputs are their positions,
and every position of an index is such a number.  A multisig output is in no index, and its number
is the stub 0. -/
structure GindexsExact (db : Db) : Prop where
  positions : ∀ (txId : Hash) (indexes : List Nat), getTxOutputsGindexs db txId = some indexes →
    ∃ entry, db.transactions.lookup txId = some entry ∧ indexes.length = entry.tx.vout.length ∧
      ∀ (n : Nat) (out : TxOut) (g : Nat), entry.tx.vout[n]? = some out →
        out.target.isIndexed = true → indexes[n]? = some g →
        (db.outputs out.amount)[g]? = some { txId, outNo := n }
  numbers : ∀ (amount : UInt64) (i : Nat) (g : GlobalOutputEntry),
    (db.outputs amount)[i]? = some g → ∃ indexes entry out,
      getTxOutputsGindexs db g.txId = some indexes ∧ indexes[g.outNo]? = some i ∧
      db.transactions.lookup g.txId = some entry ∧ entry.tx.vout[g.outNo]? = some out ∧
      out.target.isIndexed = true ∧ out.amount = amount

/-- After every run of additions and removals of blocks the global indexes of the key and HTLC
outputs are exact. -/
theorem gindexs_exact {db : Db} (h : Reachable env db) : GindexsExact db := by
  have hstored := h.indexesStored
  obtain ⟨records, hist⟩ := h.history
  have hledger := hist.ledger
  constructor
  · intro txId indexes hget
    rw [getTxOutputsGindexs] at hget
    cases hentry : db.transactions.lookup txId with
    | none =>
        rw [hentry] at hget
        cases hget
    | some entry =>
        rw [hentry] at hget
        dsimp only at hget
        split at hget
        · cases hget
        · cases hget
          obtain ⟨hlength, hfound⟩ := hstored txId entry hentry
          refine ⟨entry, rfl, hlength, fun n out g hout hindexed hg => ?_⟩
          rw [hfound n out g hout hindexed hg, Nat.zero_add]
  · intro amount i g hg
    obtain ⟨entry, out, hentry, hout, hindexed, rfl⟩ :=
      hledger.mem_outputs_iff.mp (List.mem_of_getElem? hg)
    obtain ⟨hlength, hfound⟩ := hstored g.txId entry hentry
    have hlt : g.outNo < entry.globalOutputIndexes.length := by
      rw [hlength]
      exact (List.getElem?_eq_some_iff.mp hout).1
    have hget : getTxOutputsGindexs db g.txId = some entry.globalOutputIndexes := by
      rw [getTxOutputsGindexs, hentry]
      exact if_neg (by omega)
    refine ⟨_, entry, out, hget, ?_, hentry, hout, hindexed, rfl⟩
    have hput := hfound g.outNo out _ hout hindexed (List.getElem?_eq_getElem hlt)
    rw [Nat.zero_add] at hput
    rw [List.getElem?_eq_getElem hlt]
    exact congrArg some (hledger.position_unique hput hg)

/-- Above the genesis block, every block pays its reward to a key. -/
def keyBlocks : List Block := (List.range 4).map fun height => sampleKeyBlock height (120 * height)

def keyBlocksNode : Node := (addBlocks sampleEnv 100000 ∅ keyBlocks emptyNode).getD emptyNode

theorem gindexs_exact_sample :
    getTxOutputsGindexs keyBlocksNode.db
        (getTransactionHash sampleCrypto (sampleKeyBlock 3 360).minerTx) = some [2] ∧
      Reachable sampleEnv keyBlocksNode.db ∧ GindexsExact keyBlocksNode.db := by
  have hrun : (addBlocks sampleEnv 100000 ∅ keyBlocks emptyNode).isSome = true := by decide +kernel
  have hreach : Reachable sampleEnv keyBlocksNode.db := reachable_of_isSome_addBlocks rfl hrun
  exact ⟨by decide +kernel, hreach, gindexs_exact hreach⟩

end Chinet
