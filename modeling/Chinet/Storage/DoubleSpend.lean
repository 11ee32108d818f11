import Chinet.Fork.Numbers
import Chinet.Storage.History

/-!
# Double spends

A key image is consumed once on every reachable main chain: `m_db_spent_keys`
has it from the first input on.  A multisig output leaves its mark twice, in
`spent_height` and in the flag of the source output, and no purge of another
transaction takes the flag away; so two transactions never consume the same one.

Two inputs of one transaction may: `check_tx_inputs` looks at each input against
the state before the transaction, `validate_tx_semantic` compares key images
only, and `add_transaction_input_visitor` only warns about an output that is
spent already.
-/

namespace Chinet

open Procedure FiniteStore

variable {env : Env}

/-! ## The inputs of a main chain -/

/-- The coinbase of a block and the transactions under its ids. -/
def Db.blockTransactions (db : Db) (bl : Block) : List Transaction :=
  bl.minerTx :: bl.txHashes.filterMap fun txId =>
    (db.transactions.lookup txId).map TransactionChainEntry.tx

def Db.chainTransactions (db : Db) : List Transaction :=
  db.blocks.flatMap fun bei => db.blockTransactions bei.bl

/-- Every key image and every multisig output is consumed by at most one input. -/
structure NoDoubleSpend (db : Db) : Prop where
  keyImages : (db.chainTransactions.flatMap fun tx => tx.keyImages).Nodup
  multisigIds : (db.chainTransactions.flatMap fun tx => tx.multisigIds).Nodup

/-! ## The ledger, entry by entry -/

/-- All entries of a main chain, in the order in which they were added. -/
inductive Ledger (env : Env) : List LedgerEntry → Db → Prop
  | empty {db : Db} (hsame : SameLedger db Db.empty) : Ledger env [] db
  | snoc {es : List LedgerEntry} {D db : Db} {e : LedgerEntry} (hist : Ledger env es D)
      (hvalid : EntryValid env D e) (hsame : SameLedger db (applyEntry env e D)) :
      Ledger env (es ++ [e]) db

namespace Ledger

variable {es : List LedgerEntry} {db : Db}

theorem congr {db' : Db} (h : Ledger env es db) (hsame : SameLedger db' db) : Ledger env es db' := by
  cases h with
  | empty hempty => exact empty (hsame.trans hempty)
  | snoc hist hvalid hsame' => exact snoc hist hvalid (hsame.trans hsame')

theorem append {es' : List LedgerEntry} (h : Ledger env es db) (hvalid : EntriesValid env db es') :
    Ledger env (es ++ es') (applyEntries env es' db) := by
  induction es' generalizing es db with
  | nil =>
      rw [List.append_nil]
      exact h
  | cons e rest ih =>
      have hfirst : Ledger env (es ++ [e]) (applyEntry env e db) :=
        h.snoc hvalid.1 (SameLedger.refl _)
      have hrest := ih hfirst hvalid.2
      rw [List.append_assoc] at hrest
      exact hrest

/-- The entries of the ledger are found under their ids. -/
theorem lookup_core (h : Ledger env es db) :
    ∀ e ∈ es, (db.transactions.lookup e.txId).map TransactionChainEntry.core =
      some e.chainEntry.core := by
  induction h with
  | empty hsame => exact nofun
  | @snoc es D db e hist hvalid hsame ih =>
      intro e' he'
      rw [hsame.core]
      rcases List.mem_append.mp he' with hold | hnew
      · have hknown := ih e' hold
        have hne : e'.txId ≠ e.txId := by
          intro heq
          rw [heq, hvalid.addable.fresh] at hknown
          cases hknown
        rw [core_applyEntry hne]
        exact hknown
      · rw [List.mem_singleton.mp hnew, applyEntry_transactions, lookup_insert_ite, if_pos rfl]
        rfl

theorem lookup_tx (h : Ledger env es db) :
    ∀ e ∈ es, (db.transactions.lookup e.txId).map TransactionChainEntry.tx = some e.tx := by
  intro e he
  have hcore := congrArg (Option.map Prod.fst) (h.lookup_core e he)
  rw [Option.map_map] at hcore
  exact hcore

/-- The key images of the ledger are spent. -/
theorem keyImages_spent (h : Ledger env es db) :
    ∀ ki ∈ es.flatMap fun e => e.tx.keyImages, db.spentKeys.lookup ki ≠ none := by
  induction h with
  | empty hsame => exact nofun
  | @snoc es D db e hist hvalid hsame ih =>
      intro ki hki
      rw [hsame.spentKeys, applyEntry_spentKeys, lookup_insertMany]
      split
      · exact Option.some_ne_none _
      · rename_i hnew
        rw [List.flatMap_append, List.flatMap_singleton] at hki
        exact ih ki ((List.mem_append.mp hki).resolve_right hnew)

/-- The multisig outputs that the ledger consumed are marked as spent. -/
theorem multisigIds_spent (h : Ledger env es db) :
    ∀ id ∈ es.flatMap fun e => e.tx.multisigIds, ∃ ms, db.multisigOuts.lookup id = some ms ∧
      db.IsMultisigOutput (ms.txId, ms.outNo) ∧
      flagAt db.transactions (ms.txId, ms.outNo) = some true := by
  induction h with
  | empty hsame => exact nofun
  | @snoc es D db e hist hvalid hsame ih =>
      intro id hid
      -- in both cases the output is known and the new entry leaves it marked
      have hmarked : ∀ ms, D.multisigOuts.lookup id = some ms →
          D.IsMultisigOutput (ms.txId, ms.outNo) →
          ((ms.txId, ms.outNo) ∉ e.tx.vin.filterMap D.spendTarget →
            flagAt D.transactions (ms.txId, ms.outNo) = some true) →
          (flagAt D.transactions (ms.txId, ms.outNo)).isSome = true →
          ∃ ms, db.multisigOuts.lookup id = some ms ∧ db.IsMultisigOutput (ms.txId, ms.outNo) ∧
            flagAt db.transactions (ms.txId, ms.outNo) = some true := by
        intro ms hms hmultisig hflag hsome
        have hne : ms.txId ≠ e.txId := hvalid.addable.ne_of_flagAt hsome
        have hout : (applyEntry env e D).IsMultisigOutput (ms.txId, ms.outNo) := by
          rw [Db.IsMultisigOutput, outputAt_of_core (core_applyEntry hne)]
          exact hmultisig
        have hlookup := hvalid.addable.lookup_multisigOuts hms
        have hafter : flagAt db.transactions (ms.txId, ms.outNo) = some true := by
          rw [hsame.multisigFlags _ (hsame.isMultisigOutput.mpr hout), flagAt_applyEntry hne]
          split
          · obtain ⟨b, hb⟩ := Option.isSome_iff_exists.mp hsome
            rw [hb]
            rfl
          · rename_i htarget
            exact hflag htarget
        by_cases hspent : id ∈ e.tx.multisigIds
        · rw [if_pos hspent] at hlookup
          exact ⟨setSpentHeight e.keeperBlockHeight ms, by rw [hsame.multisigOuts, hlookup],
            hsame.isMultisigOutput.mpr hout, hafter⟩
        · rw [if_neg hspent] at hlookup
          exact ⟨ms, by rw [hsame.multisigOuts, hlookup], hsame.isMultisigOutput.mpr hout, hafter⟩
      rw [List.flatMap_append, List.flatMap_singleton] at hid
      rcases List.mem_append.mp hid with hold | hnew
      · obtain ⟨ms, hms, hmultisig, hflag⟩ := ih id hold
        exact hmarked ms hms hmultisig (fun _ => hflag) (by rw [hflag]; rfl)
      · obtain ⟨input, hinput, hinputId⟩ := List.mem_filterMap.mp hnew
        obtain ⟨ms, hms, _, hmultisig, hflag⟩ := (hvalid.checked input hinput).multisig id hinputId
        have htarget : D.spendTarget input = some (ms.txId, ms.outNo) := by
          cases input <;> cases hinputId
          rw [Db.spendTarget, hms, Option.map_some]
        refine hmarked ms hms hmultisig (fun hnot => absurd ?_ hnot) (by rw [hflag]; rfl)
        exact List.mem_filterMap.mpr ⟨input, hinput, htarget⟩

theorem nodup_keyImages (h : Ledger env es db) : (es.flatMap fun e => e.tx.keyImages).Nodup := by
  induction h with
  | empty hsame => exact List.nodup_nil
  | @snoc es D db e hist hvalid hsame ih =>
      rw [List.flatMap_append, List.flatMap_singleton, List.nodup_append]
      refine ⟨ih, hvalid.addable.inputs.nodup, ?_⟩
      rintro ki hold _ hnew rfl
      obtain ⟨input, hinput, hki⟩ := List.mem_filterMap.mp hnew
      exact hist.keyImages_spent ki hold ((hvalid.addable.inputs.each input hinput).fresh ki hki)

/-- Two entries never consume the same multisig output. -/
theorem nodup_multisigIds_iff (h : Ledger env es db) :
    (es.flatMap fun e => e.tx.multisigIds).Nodup ↔ ∀ e ∈ es, e.tx.multisigIds.Nodup := by
  induction h with
  | empty hsame => simp
  | @snoc es D db e hist hvalid hsame ih =>
      rw [List.flatMap_append, List.flatMap_singleton, List.nodup_append, ih]
      have hdisjoint : ∀ id ∈ es.flatMap fun e => e.tx.multisigIds, ∀ id' ∈ e.tx.multisigIds,
          id ≠ id' := by
        rintro id hold _ hnew rfl
        obtain ⟨ms, hms, _, hspent⟩ := hist.multisigIds_spent id hold
        obtain ⟨input, hinput, hinputId⟩ := List.mem_filterMap.mp hnew
        obtain ⟨ms', hms', _, _, hunspent⟩ := (hvalid.checked input hinput).multisig id hinputId
        rw [hms] at hms'
        cases hms'
        rw [hspent] at hunspent
        cases hunspent
      constructor
      · rintro ⟨hall, hlast, _⟩ e' he'
        rcases List.mem_append.mp he' with hold | hnew
        · exact hall e' hold
        · rw [List.mem_singleton.mp hnew]
          exact hlast
      · intro hall
        exact ⟨fun e' he' => hall e' (List.mem_append_left _ he'),
          hall e (List.mem_append_right _ List.mem_cons_self), hdisjoint⟩

end Ledger

/-! ## From the history to the ledger -/

theorem History.ledger {records : List BlockRecord} {db : Db} (h : History env records db) :
    Ledger env (records.flatMap BlockRecord.entries) db := by
  induction h with
  | empty hsame hblocks => exact Ledger.empty hsame
  | @snoc records D db r hist hvalid hsame hblocks ih =>
      rw [List.flatMap_append, List.flatMap_singleton]
      exact (ih.append hvalid.valid).congr hsame

/-- The shape of each record of a history. -/
theorem History.blockValid {records : List BlockRecord} {db : Db} (h : History env records db) :
    ∀ r ∈ records, ∃ D, BlockValid env D r := by
  induction h with
  | empty hsame hblocks => exact nofun
  | @snoc records D db r hist hvalid hsame hblocks ih =>
      intro r' hr'
      rcases List.mem_append.mp hr' with hold | hnew
      · exact ih r' hold
      · rw [List.mem_singleton.mp hnew]
        exact ⟨D, hvalid⟩

/-- The transactions of a block are those of its record. -/
theorem History.blockTransactions_eq {records : List BlockRecord} {db : Db}
    (h : History env records db) {r : BlockRecord} (hr : r ∈ records) :
    db.blockTransactions r.bei.bl = r.entries.map LedgerEntry.tx := by
  obtain ⟨D, hvalid⟩ := h.blockValid r hr
  rw [Db.blockTransactions, BlockRecord.entries, List.map_cons, hvalid.coinbase_tx,
    ← hvalid.txIds, List.filterMap_map, List.map_map]
  congr 1
  rw [← List.filterMap_eq_map]
  refine List.filterMap_congr fun p hp => ?_
  refine h.ledger.lookup_tx p.entry (List.mem_flatMap.mpr ⟨r, hr, ?_⟩)
  exact List.mem_cons_of_mem _ (List.mem_map_of_mem hp)

/-- The transactions of a main chain are those of its ledger. -/
theorem History.chainTransactions_eq {records : List BlockRecord} {db : Db}
    (h : History env records db) :
    db.chainTransactions = (records.flatMap BlockRecord.entries).map LedgerEntry.tx := by
  rw [Db.chainTransactions, h.blocks_eq, List.flatMap_map, List.map_flatMap]
  exact List.flatMap_congr fun r hr => h.blockTransactions_eq hr

/-- On a reachable main chain, every double spend is inside one transaction. -/
theorem noDoubleSpend_iff {db : Db} (h : Reachable env db) :
    NoDoubleSpend db ↔ ∀ tx ∈ db.chainTransactions, tx.multisigIds.Nodup := by
  obtain ⟨records, hist⟩ := h.history
  have hkeys := hist.ledger.nodup_keyImages
  have hids := hist.ledger.nodup_multisigIds_iff
  have htxs := hist.chainTransactions_eq
  constructor
  · rintro ⟨_, hnodup⟩ tx htx
    rw [htxs] at hnodup htx
    rw [List.flatMap_map, hids] at hnodup
    obtain ⟨e, he, rfl⟩ := List.mem_map.mp htx
    exact hnodup e he
  · intro hall
    rw [htxs] at hall
    refine ⟨?_, ?_⟩
    · rw [htxs, List.flatMap_map]
      exact hkeys
    · rw [htxs, List.flatMap_map, hids]
      exact fun e he => hall e.tx (List.mem_map_of_mem he)

/-- The multisig output of block 1 and the key output of block 2 are spent by one
transaction, the key output of block 3 by another. -/
def spendTxs : List Transaction :=
  [sampleSpendTx 998 [.multisig (sampleMultisigInput 0 1 currencyBlockReward), .toKey (sampleStake 0)]
    [sampleMultisigOut currencyBlockReward, sampleKeyOut currencyBlockReward],
    sampleSpendTx 997 [.toKey (sampleStake 1)] [sampleMultisigOut currencyBlockReward]]

/-- Thirteen blocks, two of which pay to keys, and one with `spendTxs`. -/
def spendBlocks : List Block :=
  (List.range 2).map samplePlainBlock ++
    [2, 3].map (fun height => sampleKeyBlock height (difficultyPowTarget * height)) ++
    (List.range' 4 9).map samplePlainBlock ++
    [sampleBlock 0 13 13 [sampleMultisigOut currencyBlockReward]
      (spendTxs.map (getTransactionHash sampleCrypto))]

def spendNode? : Option Node :=
  addBlocks sampleEnv 100000
    (FiniteStore.insertPairs (spendTxs.map fun tx => (getTransactionHash sampleCrypto tx, tx)) ∅)
    spendBlocks emptyNode

def spendNode : Node := spendNode?.getD emptyNode

/-- Two key images and one multisig output are spent there. -/
theorem noDoubleSpend_on_spendNode :
    NoDoubleSpend spendNode.db ∧
      (spendNode.db.chainTransactions.flatMap fun tx => tx.keyImages) = [1, 2] ∧
      (spendNode.db.chainTransactions.flatMap fun tx => tx.multisigIds).length = 1 := by
  have hrun : spendNode?.isSome = true := by decide +kernel
  refine ⟨(noDoubleSpend_iff (reachable_of_isSome_addBlocks rfl hrun)).mpr ?_, ?_, ?_⟩ <;>
    decide +kernel

/-- A transaction that consumes the output of block 1 twice and pays out both. -/
def doubleSpendTx : Transaction :=
  let input := sampleMultisigInput 0 1 currencyBlockReward
  sampleMultisigTx 999 [input, input] [sampleMultisigOut (2 * currencyBlockReward)]

/-- Eleven plain blocks and one with `doubleSpendTx`. -/
def doubleSpendBlocks : List Block :=
  (List.range 11).map samplePlainBlock ++
    [sampleBlock 0 11 11 [sampleMultisigOut currencyBlockReward]
      [getTransactionHash sampleCrypto doubleSpendTx]]

def doubleSpendNode : Node :=
  (addBlocks sampleEnv 100000
    (Finmap.singleton (getTransactionHash sampleCrypto doubleSpendTx) doubleSpendTx)
    doubleSpendBlocks emptyNode).getD emptyNode

theorem doubleSpendNode_spends_twice :
    Reachable sampleEnv doubleSpendNode.db ∧ ¬ NoDoubleSpend doubleSpendNode.db := by
  have hrun : (addBlocks sampleEnv 100000
      (Finmap.singleton (getTransactionHash sampleCrypto doubleSpendTx) doubleSpendTx)
      doubleSpendBlocks emptyNode).isSome = true := by
    decide +kernel
  have htwice : ¬ (doubleSpendNode.db.chainTransactions.flatMap fun tx => tx.multisigIds).Nodup := by
    decide +kernel
  exact ⟨reachable_of_isSome_addBlocks rfl hrun, fun h => htwice h.multisigIds⟩

end Chinet
