import Chinet.Storage.AliasOwnership

/-!
# The outputs of the main chain in their order

The index of an amount lists the key and HTLC outputs of the main chain, block by block
and transaction by transaction.  Together with the heights this list decides every
lookup by global index, and the increments stored for a block count the part of it that
the block added.
-/

namespace Chinet

open Procedure FiniteStore

variable {env : Env}

/-! ## Outputs of an amount -/

/-- What an input needs of an output with a global index. -/
def TxoutTarget.keyOrHtlc? : TxoutTarget → Option OutputKeyOrHtlc
  | .toKey out => some (.publicKey out.key)
  | .htlc out => some (.htlc out)
  | .multisig _ => none

theorem TxoutTarget.keyOrHtlc?_isSome (target : TxoutTarget) :
    target.keyOrHtlc?.isSome = target.isIndexed := by
  cases target <;> rfl

/-- The key and HTLC outputs of an amount. -/
def outputsOfAmount (amount : UInt64) (outs : List TxOut) : List OutputKeyOrHtlc :=
  outs.filterMap fun out => if out.amount = amount then out.target.keyOrHtlc? else none

def TransactionPrefix.outputsOf (tx : TransactionPrefix) (amount : UInt64) : List OutputKeyOrHtlc :=
  outputsOfAmount amount tx.vout

/-- An output and the height of its block. -/
abbrev PlacedOutput := OutputKeyOrHtlc × Nat

def placeAt (height : Nat) (outs : List OutputKeyOrHtlc) : List PlacedOutput :=
  outs.map fun out => (out, height)

@[simp] theorem length_placeAt (height : Nat) (outs : List OutputKeyOrHtlc) :
    (placeAt height outs).length = outs.length := by
  simp [placeAt]

/-- The output that an entry of an index stands for. -/
def Db.placedOutput (db : Db) (g : GlobalOutputEntry) : Option PlacedOutput :=
  (db.transactions.lookup g.txId).bind fun entry =>
    ((entry.tx.vout[g.outNo]?).bind fun out => out.target.keyOrHtlc?).map fun out =>
      (out, entry.keeperBlockHeight)

/-! ## The index of the ledger -/

theorem map_indexEntries {txId : Hash} {amount : UInt64} {i : Nat} {outs : List TxOut} {height : Nat}
    {f : GlobalOutputEntry → Option PlacedOutput}
    (hf : ∀ k out, outs[k]? = some out →
      f { txId, outNo := i + k } = out.target.keyOrHtlc?.map fun key => (key, height)) :
    (indexEntries txId amount i outs).map f =
      (placeAt height (outputsOfAmount amount outs)).map some := by
  induction outs generalizing i with
  | nil => rfl
  | cons out rest ih =>
      have hrest : (indexEntries txId amount (i + 1) rest).map f =
          (placeAt height (outputsOfAmount amount rest)).map some := by
        refine ih fun k out' hout' => ?_
        rw [show i + 1 + k = i + (k + 1) by omega]
        exact hf (k + 1) out' (by rw [List.getElem?_cons_succ]; exact hout')
      have hfirst := hf 0 out rfl
      rw [indexEntries, List.map_append, hrest]
      by_cases hamount : out.amount = amount
      · cases hkey : out.target.keyOrHtlc? with
        | none =>
            have hindexed : out.target.isIndexed = false := by
              rw [← TxoutTarget.keyOrHtlc?_isSome, hkey]
              rfl
            simp [outputsOfAmount, hamount, hkey, hindexed]
        | some key =>
            have hindexed : out.target.isIndexed = true := by
              rw [← TxoutTarget.keyOrHtlc?_isSome, hkey]
              rfl
            rw [hkey] at hfirst
            simpa [outputsOfAmount, hamount, hkey, hindexed, placeAt] using hfirst
      · simp [outputsOfAmount, hamount]

def LedgerEntry.placedOutputs (e : LedgerEntry) (amount : UInt64) : List PlacedOutput :=
  placeAt e.keeperBlockHeight (e.tx.outputsOf amount)

theorem Ledger.outputs_eq {es : List LedgerEntry} {db : Db} (h : Ledger env es db) (amount : UInt64) :
    db.outputs amount = es.flatMap fun e => indexEntries e.txId amount 0 e.tx.vout := by
  induction h with
  | empty hsame => exact congrFun hsame.outputs amount
  | @snoc es D db e hist hvalid hsame ih =>
      rw [hsame.outputs, applyEntry_outputs, ih, List.flatMap_append, List.flatMap_singleton]

/-- The index of an amount, read output by output. -/
theorem Ledger.placedOutputs_eq {es : List LedgerEntry} {db : Db} (h : Ledger env es db)
    (amount : UInt64) :
    (db.outputs amount).map db.placedOutput =
      (es.flatMap fun e => e.placedOutputs amount).map some := by
  rw [h.outputs_eq amount, List.map_flatMap, List.map_flatMap]
  refine List.flatMap_congr fun e he => map_indexEntries fun k out hout => ?_
  obtain ⟨entry, hlookup, hcore⟩ := Option.map_eq_some_iff.mp (h.lookup_core e he)
  have htx : entry.tx = e.tx := congrArg Prod.fst hcore
  have hheight : entry.keeperBlockHeight = e.keeperBlockHeight :=
    congrArg (fun core => core.2.1) hcore
  rw [Db.placedOutput, hlookup, Option.bind_some, htx, hheight, Nat.zero_add, hout,
    Option.bind_some]

/-! ## The index of a history -/

theorem getBlockHeight_of_prevalidate {b : Block} {height : Nat} {pos : Bool}
    (h : prevalidateMinerTransaction env b height pos = .ok ()) : getBlockHeight b = height := by
  unfold prevalidateMinerTransaction at h
  rw [require_bind_eq_ok] at h
  have hshape := h.1
  rw [getBlockHeight]
  split at hshape
  · rename_i height' hvin
    rw [hvin]
    simp only [Bool.and_eq_true, decide_eq_true_eq] at hshape
    exact hshape.2
  · rename_i height' input hvin
    rw [hvin]
    simp only [Bool.and_eq_true, decide_eq_true_eq] at hshape
    exact hshape.2
  · cases hshape

def BlockRecord.outputsOf (r : BlockRecord) (amount : UInt64) : List OutputKeyOrHtlc :=
  r.entries.flatMap fun e => e.tx.outputsOf amount

def BlockRecord.placedOutputs (r : BlockRecord) (amount : UInt64) : List PlacedOutput :=
  r.entries.flatMap fun e => e.placedOutputs amount

namespace History

variable {records : List BlockRecord} {db : Db}

theorem placedOutputs_eq (h : History env records db) (amount : UInt64) :
    (db.outputs amount).map db.placedOutput =
      (records.flatMap fun r => r.placedOutputs amount).map some := by
  rw [h.ledger.placedOutputs_eq amount, List.flatMap_assoc]
  rfl

/-- The record at height `k` is the one of block `k`. -/
theorem record_height (h : History env records db) :
    ∀ k r, records[k]? = some r →
      (∀ e ∈ r.entries, e.keeperBlockHeight = k) ∧ getBlockHeight r.bei.bl = k := by
  induction h with
  | empty hsame hblocks =>
      intro k r hr
      cases hr
  | @snoc records D db r hist hvalid hsame hblocks ih =>
      intro k r' hr'
      have hsize : D.size = records.length := by rw [Db.size, hist.blocks_eq, List.length_map]
      rcases lt_or_ge k records.length with hlt | hge
      · rw [List.getElem?_append_left hlt] at hr'
        exact ih k r' hr'
      · obtain ⟨hk, rfl⟩ : k = records.length ∧ r = r' := by
          rw [List.getElem?_append_right hge, List.getElem?_singleton] at hr'
          split at hr'
          · exact ⟨by omega, Option.some.inj hr'⟩
          · cases hr'
        obtain ⟨now, id, diff, stakeHash, hheader⟩ := hvalid.header
        rw [hk, ← hsize]
        exact ⟨hvalid.keeperBlockHeight_eq, getBlockHeight_of_prevalidate hheader.minerTx⟩

theorem record_placedOutputs (h : History env records db) {k : Nat} {r : BlockRecord}
    (hr : records[k]? = some r) (amount : UInt64) :
    r.placedOutputs amount = placeAt k (r.outputsOf amount) := by
  rw [BlockRecord.placedOutputs, BlockRecord.outputsOf, placeAt, List.map_flatMap]
  refine List.flatMap_congr fun e he => ?_
  rw [LedgerEntry.placedOutputs, placeAt, (h.record_height k r hr).1 e he]

end History

/-! ## The increments of a block -/

theorem lookup_appendPerBlockIncrementsForTx (tx : Transaction) (gindices : FiniteStore UInt64 Nat)
    (amount : UInt64) :
    ((appendPerBlockIncrementsForTx tx gindices).lookup amount).getD 0 =
        (gindices.lookup amount).getD 0 + (tx.outputsOf amount).length ∧
      ((appendPerBlockIncrementsForTx tx gindices).lookup amount = none ↔
        gindices.lookup amount = none ∧ tx.outputsOf amount = []) := by
  unfold appendPerBlockIncrementsForTx TransactionPrefix.outputsOf
  induction tx.vout generalizing gindices with
  | nil => simp [outputsOfAmount]
  | cons out rest ih =>
      cases hkey : out.target.keyOrHtlc? with
      | none =>
          have hindexed : out.target.isIndexed = false := by
            rw [← TxoutTarget.keyOrHtlc?_isSome, hkey]
            rfl
          have hrest : outputsOfAmount amount (out :: rest) = outputsOfAmount amount rest := by
            simp [outputsOfAmount, hkey]
          rw [List.filter_cons_of_neg (by simp [hindexed]), hrest]
          exact ih gindices
      | some key =>
          have hindexed : out.target.isIndexed = true := by
            rw [← TxoutTarget.keyOrHtlc?_isSome, hkey]
            rfl
          rw [List.filter_cons_of_pos (by simp [hindexed]), List.foldl_cons]
          have hstep := ih (gindices.insert out.amount ((gindices.lookup out.amount).getD 0 + 1))
          rw [lookup_insert_ite] at hstep
          by_cases hamount : amount = out.amount
          · subst hamount
            have hfirst : outputsOfAmount out.amount (out :: rest) =
                key :: outputsOfAmount out.amount rest := by
              simp [outputsOfAmount, hkey]
            rw [if_pos rfl] at hstep
            rw [hfirst]
            refine ⟨?_, ?_⟩
            · rw [hstep.1, Option.getD_some, List.length_cons]
              omega
            · rw [hstep.2]
              simp
          · have hfirst : outputsOfAmount amount (out :: rest) = outputsOfAmount amount rest := by
              simp [outputsOfAmount, Ne.symm hamount]
            rw [if_neg hamount] at hstep
            rw [hfirst]
            exact hstep

/-- The increments of a block count its outputs of every amount. -/
theorem BlockRecord.lookup_gindices {D : Db} {r : BlockRecord} (h : BlockValid env D r)
    (amount : UInt64) :
    ((r.totals env).gindices.lookup amount).getD 0 = (r.outputsOf amount).length ∧
      ((r.totals env).gindices.lookup amount = none ↔ r.outputsOf amount = []) := by
  have hloop : ∀ (ps : List ProcessedTx) (totals : BlockTotals),
      ((ps.foldl (fun t p => t.add p.entry.tx p.blobSize p.fee) totals).gindices.lookup
          amount).getD 0 = (totals.gindices.lookup amount).getD 0 +
            (ps.flatMap fun p => p.entry.tx.outputsOf amount).length ∧
        ((ps.foldl (fun t p => t.add p.entry.tx p.blobSize p.fee) totals).gindices.lookup amount =
          none ↔ totals.gindices.lookup amount = none ∧
            ps.flatMap (fun p => p.entry.tx.outputsOf amount) = []) := by
    intro ps
    induction ps with
    | nil => simp
    | cons p rest ih =>
        intro totals
        have hfirst := lookup_appendPerBlockIncrementsForTx p.entry.tx totals.gindices amount
        have hrest := ih (totals.add p.entry.tx p.blobSize p.fee)
        rw [List.foldl_cons, List.flatMap_cons, hrest.1, hrest.2]
        have hgindices : (totals.add p.entry.tx p.blobSize p.fee).gindices =
            appendPerBlockIncrementsForTx p.entry.tx totals.gindices := rfl
        rw [hgindices, hfirst.1, hfirst.2, List.length_append, List.append_eq_nil_iff]
        exact ⟨by omega, and_assoc⟩
  have hcoinbase := lookup_appendPerBlockIncrementsForTx r.bei.bl.minerTx ∅ amount
  have hprocessed := hloop r.processed (coinbaseTotals env r.bei.bl)
  have hgindices : (coinbaseTotals env r.bei.bl).gindices =
      appendPerBlockIncrementsForTx r.bei.bl.minerTx ∅ := rfl
  rw [hgindices, hcoinbase.1, hcoinbase.2, Finmap.lookup_empty] at hprocessed
  have houtputs : r.outputsOf amount = r.bei.bl.minerTx.outputsOf amount ++
      r.processed.flatMap fun p => p.entry.tx.outputsOf amount := by
    rw [BlockRecord.outputsOf, BlockRecord.entries, List.flatMap_cons, List.flatMap_map,
      h.coinbase_tx]
  rw [BlockRecord.totals, houtputs, List.length_append, List.append_eq_nil_iff]
  refine ⟨?_, ?_⟩
  · rw [hprocessed.1]
    simp
  · rw [hprocessed.2]
    simp

/-! ## The stored increments -/

/-- The increments of every block are stored under its height, and no others. -/
def IncrementsStored (env : Env) (records : List BlockRecord) (db : Db) : Prop :=
  ∀ k, db.perBlockGindexIncs.lookup k = (records[k]?).map fun r => (r.totals env).gindices

theorem AddedRecord.incrementsStored {onboard : TransactionsMap} {node node' : Node} {bl : Block}
    {id : Hash} {r : BlockRecord} (h : AddedRecord env onboard node node' bl id r)
    {records : List BlockRecord} (hist : History env records node.db) (hlt : node.db.size < 2 ^ 32)
    (hstored : IncrementsStored env records node.db) :
    IncrementsStored env (records ++ [r]) node'.db := by
  have hview := @applyEntries_chainView env r.entries node.db
  have hincs : (applyEntries env r.entries node.db).perBlockGindexIncs =
      node.db.perBlockGindexIncs := congrArg (fun view => view.2.2) hview
  have hsize : node.db.size = records.length := by rw [Db.size, hist.blocks_eq, List.length_map]
  intro k
  rw [h.db_eq, pushBlock]
  dsimp only
  rw [lookup_insert_ite, hincs, h.height_eq, Nat.mod_eq_of_lt hlt, hsize]
  split
  · rename_i hk
    rw [hk, List.getElem?_concat_length, Option.map_some]
  · rename_i hk
    rw [hstored k]
    rcases Nat.lt_or_gt_of_ne hk with hbelow | habove
    · rw [List.getElem?_append_left hbelow]
    · rw [List.getElem?_eq_none (by omega), List.getElem?_eq_none]
      rw [List.length_append, List.length_singleton]
      omega

theorem PoppedBlock.incrementsStored {onboard : TransactionsMap} {node node' : Node}
    (s : PoppedBlock env onboard node node') {records : List BlockRecord} {r : BlockRecord}
    (hheight : s.bei.height = records.length) (hlt : records.length < 2 ^ 32)
    (hstored : IncrementsStored env (records ++ [r]) node.db) :
    IncrementsStored env records node'.db := by
  have hincs : s.afterPurge.db.perBlockGindexIncs = node.db.perBlockGindexIncs :=
    congrArg (fun frame => frame.1.2.2) s.frame_afterPurge
  have hresult : node'.db.perBlockGindexIncs =
      s.afterPurge.db.perBlockGindexIncs.erase (s.bei.height % 2 ^ 32) :=
    congrArg (fun node => node.db.perBlockGindexIncs) s.result
  intro k
  rw [hresult, hincs, lookup_erase_ite, hheight, Nat.mod_eq_of_lt hlt, hstored k]
  split
  · rename_i hk
    rw [hk, List.getElem?_eq_none le_rfl, Option.map_none]
  · rename_i hk
    rcases Nat.lt_or_gt_of_ne hk with hbelow | habove
    · rw [List.getElem?_append_left hbelow]
    · rw [List.getElem?_eq_none (Nat.le_of_lt habove), List.getElem?_eq_none]
      rw [List.length_append, List.length_singleton]
      omega

theorem Reachable.height_of_getLast? {db : Db} (h : Reachable env db) {bei : BlockExtendedInfo}
    (hlast : db.blocks.getLast? = some bei) : bei.height + 1 = db.size := by
  obtain ⟨below, hbelow⟩ := List.getLast?_eq_some_iff.mp hlast
  have hheaders : db.headers = below.map BlockExtendedInfo.toBlockHeaderInfo ++
      bei.toBlockHeaderInfo :: [] := by
    rw [Db.headers, hbelow, List.map_append]
    rfl
  have hheight := h.wellFormed.height_eq _ _ _ hheaders
  rw [hheight, List.length_map, Db.size, hbelow, List.length_append, List.length_singleton]

/-- The runs in which the height of every block fits the key of its increments. -/
abbrev ShortReachable (env : Env) : Db → Prop :=
  ReachableWhen env fun node => node.db.size < 2 ^ 32

/-- The history of such a run, with the increments of its blocks. -/
theorem ReachableWhen.storedHistory {db : Db} (h : ShortReachable env db) :
    ∃ records, History env records db ∧ IncrementsStored env records db ∧
      records.length ≤ 2 ^ 32 := by
  induction h with
  | @genesis now bl onboard node node' hempty htxs hlt hrun =>
      obtain ⟨s⟩ := handleBlockToMainChain_added hrun
      obtain ⟨r, hr⟩ := s.record fun _ => htxs
      have hist : History env [] node.db := by
        rw [hempty]
        exact History.empty (SameLedger.refl _) rfl
      have hstored : IncrementsStored env [] node.db := by
        rw [hempty]
        exact fun _ => rfl
      exact ⟨_, hr.history hist, hr.incrementsStored hist hlt hstored, by simp⟩
  | @addBlock now bl onboard node node' hreach hlt hrun ih =>
      obtain ⟨records, hist, hstored, _⟩ := ih
      obtain ⟨s⟩ := handleBlockToMainChain_added hrun
      obtain ⟨r, hr⟩ := s.record fun hzero => absurd hzero hreach.reachable.size_ne_zero
      refine ⟨_, hr.history hist, hr.incrementsStored hist hlt hstored, ?_⟩
      rw [Db.size, hist.blocks_eq, List.length_map] at hlt
      rw [List.length_append, List.length_singleton]
      exact hlt
  | @popBlock onboard node node' hreach hrun ih =>
      obtain ⟨records, hist, hstored, hle⟩ := ih
      obtain ⟨s⟩ := popBlockFromBlockchain_ok hrun
      obtain ⟨records', r, rfl⟩ := s.records_concat hist
      have hheight := hreach.reachable.height_of_getLast? s.last
      rw [Db.size, hist.blocks_eq, List.length_map, List.length_append,
        List.length_singleton] at hheight
      rw [List.length_append, List.length_singleton] at hle
      exact ⟨records', s.history_concat hist, s.incrementsStored (by omega) hle hstored,
        Nat.le_of_lt hle⟩

end Chinet
