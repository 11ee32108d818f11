import Chinet.Fork.Numbers
import Chinet.Storage.DoubleSpend

/-!
# Answering a peer that synchronizes

A node asks with the sparse list of `get_short_chain_history`, from its top down
to the genesis block.  `find_blockchain_supplement` looks for the first id of the
list that its own block index knows and answers with the blocks from there on.

On a reachable chain the block index is exact and the blocks are linked
(`ChainIndexed`), so the answer is a run of the chain.
-/

namespace Chinet

open Procedure FiniteStore

variable (env : Env)

/-! ## `get_short_chain_history` -/

/-- The loop of `get_short_chain_history`: the heights it visits.  The offset from
the top grows in each turn, so `sz` turns are enough (`shortHistoryHeights_fuel`). -/
def shortHistoryHeights (sz : Nat) : (fuel i multiplier offset : Nat) → List Nat
  | 0, _, _, _ => []
  | fuel + 1, i, multiplier, offset =>
      if offset < sz then
        (sz - offset) ::
          if i < 10 then shortHistoryHeights sz fuel (i + 1) multiplier (offset + 1)
          else shortHistoryHeights sz fuel (i + 1) (multiplier * 2) (offset + multiplier * 2)
      else []

/-- The genesis block is put at the end unless the loop met it. -/
def shortHistory (sz : Nat) : List Nat :=
  let heights := shortHistoryHeights sz sz 0 1 1
  if 0 ∈ heights then heights else heights ++ [0]

/-- `get_short_chain_history`. -/
def getShortChainHistory (db : Db) : List Hash :=
  if db.size = 0 then []
  else (shortHistory db.size).filterMap fun height =>
    db.blocks[height]?.map fun bei => env.crypto.getBlockHash bei.bl

/-! ## `find_blockchain_supplement` -/

/-- The search for the offset. -/
def findSupplementOffset (db : Db) (qblockIds : List Hash) : Except Failure Nat := do
  match qblockIds.getLast?, db.blocks[0]? with
  | none, _ => .error .rejected
  | some _, none => .error .thrown
  | some last, some genesis => do
      require (last = env.crypto.getBlockHash genesis.bl)
      match qblockIds.findSome? db.blocksIndex.lookup with
      | none => .error .rejected
      | some offset => .ok offset

/-- What is sent for the blocks from height `i` on, up to `remaining` of them.
The loop stops when `i` is the size of the chain; a block above it is not there to
be read. -/
def supplementLoop {α : Type} (visit : BlockExtendedInfo → Except Failure α) (db : Db) :
    (remaining i : Nat) → Except Failure (List α)
  | 0, _ => .ok []
  | remaining + 1, i =>
      if i = db.size then .ok []
      else
        match db.blocks[i]? with
        | none => .error .thrown
        | some bei => do
            let sent ← visit bei
            let rest ← supplementLoop visit db remaining (i + 1)
            return sent :: rest

/-- The ids of `NOTIFY_RESPONSE_CHAIN_ENTRY`: each block's id is read off the next
one, the last one is hashed. -/
def blockContextInfos : List BlockExtendedInfo → List (Hash × Nat)
  | [] => []
  | [bei] => [(env.crypto.getBlockHash bei.bl, bei.blockCumulativeSize)]
  | bei :: next :: rest =>
      (next.bl.prevId, bei.blockCumulativeSize) :: blockContextInfos (next :: rest)

def blocksIdsSynchronizingDefaultCount : Nat := 2000

structure ResponseChainEntry where
  startHeight : Nat
  totalHeight : Nat
  blockIds : List (Hash × Nat)

/-- `find_blockchain_supplement` for `NOTIFY_REQUEST_CHAIN`. -/
def findSupplementIds (db : Db) (qblockIds : List Hash) : Except Failure ResponseChainEntry := do
  let startHeight ← findSupplementOffset env db qblockIds
  let blocks ← supplementLoop Except.ok db blocksIdsSynchronizingDefaultCount startHeight
  return { startHeight, totalHeight := db.size, blockIds := blockContextInfos env blocks }

/-- An element of `blocks_direct_container`. -/
structure BlockDirect where
  bei : BlockExtendedInfo
  txs : List TransactionChainEntry
  coinbase : Option TransactionChainEntry

/-- `get_transactions_direct`, which must not miss a transaction. -/
def transactionsDirect (db : Db) (txIds : List Hash) : Except Failure (List TransactionChainEntry) :=
  txIds.mapM fun txId =>
    match db.transactions.lookup txId with
    | none => .error .rejected
    | some entry => .ok entry

structure SupplementBlocks where
  startHeight : Nat
  totalHeight : Nat
  blocks : List BlockDirect

def blockDirect (db : Db) (requestCoinbaseInfo : Bool) (bei : BlockExtendedInfo) :
    Except Failure BlockDirect := do
  let txs ← transactionsDirect db bei.bl.txHashes
  return { bei, txs, coinbase :=
    if requestCoinbaseInfo then
      db.transactions.lookup (getTransactionHash env.crypto bei.bl.minerTx)
    else none }

/-- `find_blockchain_supplement` with the blocks. -/
def findSupplementBlocks (db : Db) (qblockIds : List Hash) (maxCount minimumHeight : Nat)
    (requestCoinbaseInfo : Bool) : Except Failure SupplementBlocks := do
  let offset ← findSupplementOffset env db qblockIds
  let startHeight := if minimumHeight > offset then minimumHeight else offset
  let blocks ← supplementLoop (blockDirect env db requestCoinbaseInfo) db maxCount startHeight
  return { startHeight, totalHeight := db.size, blocks }

variable {env}

/-! ## The sparse list -/

/-- More turns than the offset needs change nothing. -/
theorem shortHistoryHeights_fuel {sz fuel fuel' i multiplier offset : Nat} (hmultiplier : 0 < multiplier)
    (hfuel : sz ≤ offset + fuel) (hfuel' : sz ≤ offset + fuel') :
    shortHistoryHeights sz fuel i multiplier offset =
      shortHistoryHeights sz fuel' i multiplier offset := by
  induction fuel generalizing fuel' i multiplier offset with
  | zero =>
      cases fuel' with
      | zero => rfl
      | succ fuel' => rw [shortHistoryHeights, shortHistoryHeights, if_neg (by omega)]
  | succ fuel ih =>
      cases fuel' with
      | zero => rw [shortHistoryHeights, shortHistoryHeights, if_neg (by omega)]
      | succ fuel' =>
          rw [shortHistoryHeights, shortHistoryHeights]
          by_cases hlt : offset < sz
          · rw [if_pos hlt, if_pos hlt,
              @ih fuel' _ _ _ hmultiplier (by omega) (by omega),
              @ih fuel' _ _ _ (by omega) (by omega) (by omega)]
          · rw [if_neg hlt, if_neg hlt]

theorem mem_shortHistoryHeights {sz fuel i multiplier offset height : Nat} (hmultiplier : 0 < multiplier)
    (h : height ∈ shortHistoryHeights sz fuel i multiplier offset) :
    0 < height ∧ height + offset ≤ sz := by
  induction fuel generalizing i multiplier offset with
  | zero => cases h
  | succ fuel ih =>
      rw [shortHistoryHeights] at h
      split at h
      · rename_i hlt
        rcases List.mem_cons.mp h with rfl | hrest
        · omega
        · split at hrest
          · have hmem := ih hmultiplier hrest
            omega
          · have hmem := ih (by omega) hrest
            omega
      · cases h

theorem shortHistoryHeights_descending {sz fuel i multiplier offset : Nat} (hmultiplier : 0 < multiplier) :
    (shortHistoryHeights sz fuel i multiplier offset).Pairwise (· > ·) := by
  induction fuel generalizing i multiplier offset with
  | zero => exact List.Pairwise.nil
  | succ fuel ih =>
      rw [shortHistoryHeights]
      split
      · rw [List.pairwise_cons]
        split
        · refine ⟨fun height hmem => ?_, ih hmultiplier⟩
          have hbound := mem_shortHistoryHeights hmultiplier hmem
          omega
        · refine ⟨fun height hmem => ?_, ih (by omega)⟩
          have hbound := mem_shortHistoryHeights (by omega) hmem
          omega
      · exact List.Pairwise.nil

/-- The loop never meets the genesis block. -/
theorem shortHistory_eq (sz : Nat) : shortHistory sz = shortHistoryHeights sz sz 0 1 1 ++ [0] := by
  have hzero : 0 ∉ shortHistoryHeights sz sz 0 1 1 := by
    intro hmem
    have hbound := mem_shortHistoryHeights Nat.one_pos hmem
    omega
  rw [shortHistory]
  exact if_neg hzero

theorem shortHistory_descending (sz : Nat) : (shortHistory sz).Pairwise (· > ·) := by
  rw [shortHistory_eq, List.pairwise_append]
  refine ⟨shortHistoryHeights_descending Nat.one_pos, List.pairwise_singleton _ _, ?_⟩
  intro height hmem bottom hbottom
  rw [List.mem_singleton.mp hbottom]
  exact (mem_shortHistoryHeights Nat.one_pos hmem).1

/-! ## The index of a reachable chain -/

/-- The index gives the height of every block of the chain and knows no other
id, and every block refers to the one below it. -/
structure ChainIndexed (env : Env) (db : Db) : Prop where
  index : ∀ id height, db.blocksIndex.lookup id = some height ↔
    ∃ bei, db.blocks[height]? = some bei ∧ env.crypto.getBlockHash bei.bl = id
  links : ∀ height bei next, db.blocks[height]? = some bei → db.blocks[height + 1]? = some next →
    next.bl.prevId = env.crypto.getBlockHash bei.bl

theorem ChainIndexed.push {db db' : Db} (h : ChainIndexed env db) {bei : BlockExtendedInfo} {id : Hash}
    (hid : id = env.crypto.getBlockHash bei.bl) (hfresh : db.blocksIndex.lookup id = none)
    (hprev : bei.bl.prevId = db.topBlockId env.crypto) (hblocks : db'.blocks = db.blocks ++ [bei])
    (hindex : db'.blocksIndex = db.blocksIndex.insert id db.size) : ChainIndexed env db' where
  index := by
    intro id' height
    rw [hindex, lookup_insert_ite, hblocks]
    have hnew : (db.blocks ++ [bei])[db.size]? = some bei := by
      rw [Db.size, List.getElem?_concat_length]
    by_cases hheight : height = db.size
    · subst hheight
      rw [hnew]
      split
      · rename_i heq
        rw [heq]
        simp [hid]
      · rename_i hne
        have hold : db.blocksIndex.lookup id' ≠ some db.size := by
          intro hlookup
          obtain ⟨bei', hbei', _⟩ := (h.index id' db.size).mp hlookup
          rw [Db.size, List.getElem?_eq_none le_rfl] at hbei'
          cases hbei'
        rw [hid] at hne
        simp [hold, Ne.symm hne]
    · have hold : (db.blocks ++ [bei])[height]? = db.blocks[height]? := by
        rcases lt_or_ge height db.blocks.length with hlt | hge
        · rw [List.getElem?_append_left hlt]
        · have hgt : db.blocks.length < height := lt_of_le_of_ne hge (Ne.symm hheight)
          rw [List.getElem?_eq_none (by simp; omega), List.getElem?_eq_none hge]
      rw [hold, ← h.index id' height]
      split
      · rename_i heq
        rw [heq, hfresh]
        simp [Ne.symm hheight]
      · rfl
  links := by
    intro height bei' next hbei' hnext
    rw [hblocks] at hbei' hnext
    rcases lt_trichotomy (height + 1) db.blocks.length with hlt | heq | hgt
    · rw [List.getElem?_append_left (by omega)] at hbei'
      rw [List.getElem?_append_left hlt] at hnext
      exact h.links height bei' next hbei' hnext
    · rw [heq, List.getElem?_concat_length] at hnext
      rw [← Option.some.inj hnext, hprev, Db.topBlockId]
      rw [List.getElem?_append_left (by omega)] at hbei'
      have hlast : db.blocks.getLast? = some bei' := by
        rw [List.getLast?_eq_getElem?, ← hbei']
        congr 1
        omega
      rw [hlast]
    · have hnone : (db.blocks ++ [bei])[height + 1]? = none :=
        List.getElem?_eq_none (by simp; omega)
      rw [hnone] at hnext
      cases hnext

theorem ChainIndexed.pop {db db' : Db} (h : ChainIndexed env db) {bei : BlockExtendedInfo}
    (hlast : db.blocks.getLast? = some bei) (hblocks : db'.blocks = db.blocks.dropLast)
    (hindex : db'.blocksIndex = db.blocksIndex.erase (env.crypto.getBlockHash bei.bl)) :
    ChainIndexed env db' := by
  have hget : ∀ height bei', db'.blocks[height]? = some bei' → db.blocks[height]? = some bei' ∧
      height + 1 < db.blocks.length := by
    intro height bei' hbei'
    rw [hblocks, List.getElem?_dropLast] at hbei'
    split at hbei'
    · exact ⟨hbei', by omega⟩
    · cases hbei'
  have htop : db.blocks[db.blocks.length - 1]? = some bei := by
    rw [← List.getLast?_eq_getElem?, hlast]
  refine ⟨?_, ?_⟩
  · intro id height
    rw [hindex, lookup_erase_ite]
    split
    · rename_i hid
      refine ⟨nofun, ?_⟩
      rintro ⟨bei', hbei', hid'⟩
      obtain ⟨hold, hlt⟩ := hget height bei' hbei'
      have hfirst := (h.index id height).mpr ⟨bei', hold, hid'⟩
      have hsecond := (h.index id (db.blocks.length - 1)).mpr ⟨bei, htop, hid.symm⟩
      rw [hfirst] at hsecond
      have heq := Option.some.inj hsecond
      omega
    · rename_i hne
      rw [h.index]
      constructor
      · rintro ⟨bei', hbei', hid⟩
        refine ⟨bei', ?_, hid⟩
        rw [hblocks, List.getElem?_dropLast]
        have hlt := (List.getElem?_eq_some_iff.mp hbei').1
        rw [if_pos]
        · exact hbei'
        · by_contra hge
          have heq : height = db.blocks.length - 1 := by omega
          rw [heq, htop] at hbei'
          rw [← Option.some.inj hbei'] at hid
          exact hne hid.symm
      · rintro ⟨bei', hbei', hid⟩
        exact ⟨bei', (hget height bei' hbei').1, hid⟩
  · intro height bei' next hbei' hnext
    exact h.links height bei' next (hget height bei' hbei').1 (hget (height + 1) next hnext).1

theorem AddedBlock.chainIndexed {now : Nat} {bl : Block} {onboard : TransactionsMap} {node node' : Node}
    (s : AddedBlock env now bl (env.crypto.getBlockHash bl) onboard node node')
    (h : ChainIndexed env node.db) : ChainIndexed env node'.db := by
  have hbl : s.bei.bl = bl := by
    rw [s.header_eq]
    rfl
  refine h.push (by rw [hbl]) s.fresh (by rw [hbl, s.prevId_eq]) s.blocks_eq ?_
  rw [s.blocksIndex_eq, s.height_eq]

theorem Reachable.chainIndexed {db : Db} (h : Reachable env db) : ChainIndexed env db := by
  induction h with
  | genesis hempty htxs hrun =>
      obtain ⟨s⟩ := handleBlockToMainChain_added hrun
      refine s.chainIndexed ?_
      rw [hempty]
      refine ⟨fun id height => ⟨nofun, ?_⟩, nofun⟩
      rintro ⟨bei, hbei, _⟩
      cases hbei
  | addBlock hreach hrun ih =>
      obtain ⟨s⟩ := handleBlockToMainChain_added hrun
      exact s.chainIndexed ih
  | popBlock hreach hrun ih =>
      obtain ⟨s⟩ := popBlockFromBlockchain_ok hrun
      exact ih.pop s.last s.blocks_eq s.blocksIndex_eq

/-! ## The start -/

/-- The main chain has the block `id` at this height. -/
def Db.BlockAt (env : Env) (db : Db) (id : Hash) (height : Nat) : Prop :=
  ∃ bei, db.blocks[height]? = some bei ∧ env.crypto.getBlockHash bei.bl = id

/-- The run starts at the first id of the list that the main chain has. -/
structure SupplementStart (env : Env) (db : Db) (qblockIds : List Hash) (offset : Nat) : Prop where
  first : ∃ unknown id known, qblockIds = unknown ++ id :: known ∧ db.BlockAt env id offset ∧
    ∀ id' ∈ unknown, ∀ height, ¬ db.BlockAt env id' height

theorem findSupplementOffset_ok {db : Db} (h : ChainIndexed env db) {qblockIds : List Hash}
    {genesis : BlockExtendedInfo} (hgenesis : db.blocks[0]? = some genesis)
    (hlast : qblockIds.getLast? = some (env.crypto.getBlockHash genesis.bl)) :
    ∃ offset, findSupplementOffset env db qblockIds = .ok offset ∧
      SupplementStart env db qblockIds offset := by
  have hknown : env.crypto.getBlockHash genesis.bl ∈ qblockIds := List.mem_of_getLast? hlast
  have hlookup := (h.index (env.crypto.getBlockHash genesis.bl) 0).mpr ⟨genesis, hgenesis, rfl⟩
  obtain ⟨offset, hoffset⟩ : ∃ offset, qblockIds.findSome? db.blocksIndex.lookup = some offset := by
    rw [← Option.isSome_iff_exists, List.findSome?_isSome_iff]
    exact ⟨_, hknown, by rw [hlookup]; rfl⟩
  refine ⟨offset, ?_, ?_⟩
  · rw [findSupplementOffset, hlast, hgenesis]
    simp only [require, hoffset]
    rfl
  · obtain ⟨unknown, id, known, heq, hid, hnone⟩ := List.findSome?_eq_some_iff.mp hoffset
    refine ⟨unknown, id, known, heq, (h.index id offset).mp hid, ?_⟩
    intro id' hid' height hat
    have hsome := (h.index id' height).mpr hat
    rw [hnone id' hid'] at hsome
    cases hsome

/-- In a list that goes down, the first common block is the highest one. -/
theorem SupplementStart.highest {db : Db} {qblockIds : List Hash} {offset : Nat}
    (h : SupplementStart env db qblockIds offset)
    (hdown : qblockIds.Pairwise fun upper lower => ∀ i j,
      db.BlockAt env upper i → db.BlockAt env lower j → j ≤ i) {id : Hash} (hid : id ∈ qblockIds)
    {height : Nat} (hat : db.BlockAt env id height) (hindex : ChainIndexed env db) :
    height ≤ offset := by
  obtain ⟨unknown, first, known, rfl, hfirst, hnone⟩ := h.first
  rcases List.mem_append.mp hid with hunknown | hrest
  · exact absurd hat (hnone id hunknown height)
  · have hpairs := (List.pairwise_append.mp hdown).2.1
    rcases List.mem_cons.mp hrest with rfl | hlower
    · have hlookup := (hindex.index id height).mpr hat
      rw [(hindex.index id offset).mpr hfirst] at hlookup
      exact (Option.some.inj hlookup).ge
    · exact (List.pairwise_cons.mp hpairs).1 id hlower offset height hfirst hat

/-- The start for the sparse list of another node: the highest of its entries that
both chains have. -/
structure HistoryStart (env : Env) (db db' : Db) (offset : Nat) : Prop where
  highest : ∃ top id, top ∈ shortHistory db'.size ∧ db'.BlockAt env id top ∧
    db.BlockAt env id offset ∧
    ∀ height ∈ shortHistory db'.size, ∀ id' k,
      db'.BlockAt env id' height → db.BlockAt env id' k → height ≤ top

theorem SupplementStart.ofHistory {db db' : Db} {offset : Nat}
    (h : SupplementStart env db (getShortChainHistory env db') offset) :
    HistoryStart env db db' offset := by
  obtain ⟨unknown, id, known, heq, hat, hnone⟩ := h.first
  rw [getShortChainHistory] at heq
  split at heq
  · cases unknown <;> cases heq
  · obtain ⟨heights₁, heights₂, hheights, hunknown, hrest⟩ := List.filterMap_eq_append_iff.mp heq
    obtain ⟨skipped, top, lower, rfl, hskipped, htop, hlower⟩ := List.filterMap_eq_cons_iff.mp hrest
    obtain ⟨bei, hbei, hid⟩ := Option.map_eq_some_iff.mp htop
    have hdown := shortHistory_descending db'.size
    rw [hheights, ← List.append_assoc, List.pairwise_append] at hdown
    refine ⟨top, id, ?_, ⟨bei, hbei, hid⟩, hat, ?_⟩
    · rw [hheights]
      simp
    · intro height hheight id' k hat' hcommon
      obtain ⟨bei', hbei', hid'⟩ := hat'
      have hread : (db'.blocks[height]?.map fun bei => env.crypto.getBlockHash bei.bl) = some id' := by
        rw [hbei', ← hid']
        rfl
      rw [hheights, List.mem_append, List.mem_append, List.mem_cons] at hheight
      rcases hheight with habove | hskip | rfl | hbelow
      · -- above the start: the id would be one of those the chain does not have
        have hmem : id' ∈ unknown := by
          rw [← hunknown]
          exact List.mem_filterMap.mpr ⟨height, habove, hread⟩
        exact absurd hcommon (hnone id' hmem k)
      · have hempty := hskipped height hskip
        rw [hread] at hempty
        cases hempty
      · exact le_rfl
      · exact ((List.pairwise_cons.mp hdown.2.1).1 height hbelow).le

/-! ## The answer -/

theorem supplementLoop_ok {α : Type} {visit : BlockExtendedInfo → Except Failure α}
    {sentFor : BlockExtendedInfo → α → Prop} {db : Db}
    (hvisit : ∀ bei ∈ db.blocks, ∃ sent, visit bei = .ok sent ∧ sentFor bei sent)
    {remaining i : Nat} (hle : i ≤ db.size) :
    ∃ answer, supplementLoop visit db remaining i = .ok answer ∧
      List.Forall₂ sentFor ((db.blocks.drop i).take remaining) answer := by
  induction remaining generalizing i with
  | zero =>
      refine ⟨[], rfl, ?_⟩
      rw [List.take_zero]
      exact List.Forall₂.nil
  | succ remaining ih =>
      rw [supplementLoop]
      by_cases hend : i = db.size
      · refine ⟨[], if_pos hend, ?_⟩
        rw [hend, Db.size, List.drop_length, List.take_nil]
        exact List.Forall₂.nil
      · have hlt : i < db.blocks.length := lt_of_le_of_ne hle hend
        obtain ⟨sent, hsent, hfor⟩ := hvisit db.blocks[i] (List.getElem_mem hlt)
        obtain ⟨rest, hrest, hall⟩ := ih hlt
        refine ⟨sent :: rest, ?_, ?_⟩
        · rw [if_neg hend, List.getElem?_eq_getElem hlt]
          simp only [hsent, hrest]
          rfl
        · rw [List.drop_eq_getElem_cons hlt, List.take_succ_cons]
          exact List.Forall₂.cons hfor hall

/-- The links of the chain give the ids that the loop reads off the next block. -/
theorem blockContextInfos_eq {blocks : List BlockExtendedInfo}
    (hlinks : ∀ k bei next, blocks[k]? = some bei → blocks[k + 1]? = some next →
      next.bl.prevId = env.crypto.getBlockHash bei.bl) :
    blockContextInfos env blocks =
      blocks.map fun bei => (env.crypto.getBlockHash bei.bl, bei.blockCumulativeSize) := by
  induction blocks with
  | nil => rfl
  | cons bei rest ih =>
      cases rest with
      | nil => rfl
      | cons next rest =>
          have hfirst := hlinks 0 bei next rfl rfl
          have hrest := ih fun k bei' next' hbei' hnext' => hlinks (k + 1) bei' next' hbei' hnext'
          rw [blockContextInfos, hfirst, hrest]
          rfl

/-- The transactions of every block of a reachable chain are stored. -/
theorem Reachable.transactionsStored {db : Db} (h : Reachable env db) {bei : BlockExtendedInfo}
    (hbei : bei ∈ db.blocks) :
    ((db.transactions.lookup (getTransactionHash env.crypto bei.bl.minerTx)).map
      TransactionChainEntry.tx = some bei.bl.minerTx) ∧
    ∀ txId ∈ bei.bl.txHashes, (db.transactions.lookup txId).isSome = true := by
  obtain ⟨records, hist⟩ := h.history
  rw [hist.blocks_eq] at hbei
  obtain ⟨r, hr, rfl⟩ := List.mem_map.mp hbei
  obtain ⟨D, hvalid⟩ := hist.blockValid r hr
  have hlookup : ∀ e ∈ r.entries,
      (db.transactions.lookup e.txId).map TransactionChainEntry.tx = some e.tx := fun e he =>
    hist.ledger.lookup_tx e (List.mem_flatMap.mpr ⟨r, hr, he⟩)
  constructor
  · have hcoinbase := hlookup r.coinbase List.mem_cons_self
    rw [hvalid.coinbase_txId, hvalid.coinbase_tx] at hcoinbase
    exact hcoinbase
  · intro txId htxId
    rw [← hvalid.txIds] at htxId
    obtain ⟨p, hp, rfl⟩ := List.mem_map.mp htxId
    have hstored := hlookup p.entry (List.mem_cons_of_mem _ (List.mem_map_of_mem hp))
    cases hentry : db.transactions.lookup p.entry.txId with
    | none =>
        rw [hentry] at hstored
        cases hstored
    | some entry => rfl

theorem transactionsDirect_ok {db : Db} {txIds : List Hash}
    (h : ∀ txId ∈ txIds, (db.transactions.lookup txId).isSome = true) :
    ∃ txs, transactionsDirect db txIds = .ok txs ∧
      txs.map some = txIds.map db.transactions.lookup := by
  induction txIds with
  | nil => exact ⟨[], rfl, rfl⟩
  | cons txId rest ih =>
      obtain ⟨entry, hentry⟩ := Option.isSome_iff_exists.mp (h txId List.mem_cons_self)
      obtain ⟨txs, htxs, hmap⟩ := ih fun t ht => h t (List.mem_cons_of_mem _ ht)
      refine ⟨entry :: txs, ?_, ?_⟩
      · rw [transactionsDirect, List.mapM_cons, hentry]
        rw [transactionsDirect] at htxs
        simp only [htxs]
        rfl
      · rw [List.map_cons, List.map_cons, hmap, hentry]

/-- What is sent for a block: the block itself, its transactions and, if wanted,
its coinbase. -/
structure BlockSent (env : Env) (db : Db) (requestCoinbaseInfo : Bool) (bei : BlockExtendedInfo)
    (sent : BlockDirect) : Prop where
  block : sent.bei = bei
  txs : sent.txs.map some = bei.bl.txHashes.map db.transactions.lookup
  coinbase : sent.coinbase.map TransactionChainEntry.tx =
    if requestCoinbaseInfo then some bei.bl.minerTx else none

theorem blockDirect_ok {db : Db} (h : Reachable env db) {bei : BlockExtendedInfo}
    (hbei : bei ∈ db.blocks) (requestCoinbaseInfo : Bool) :
    ∃ sent, blockDirect env db requestCoinbaseInfo bei = .ok sent ∧
      BlockSent env db requestCoinbaseInfo bei sent := by
  obtain ⟨hcoinbase, hstored⟩ := h.transactionsStored hbei
  obtain ⟨txs, htxs, hmap⟩ := transactionsDirect_ok hstored
  let coinbase := if requestCoinbaseInfo then
    db.transactions.lookup (getTransactionHash env.crypto bei.bl.minerTx) else none
  refine ⟨⟨bei, txs, coinbase⟩, ?_, rfl, hmap, ?_⟩
  · rw [blockDirect, htxs]
    rfl
  · cases requestCoinbaseInfo with
    | false => rfl
    | true => exact hcoinbase

/-- Asked with a list that ends with the genesis block, a reachable chain answers
with its blocks from the first common one on. -/
theorem findSupplement_ok {db : Db} (h : Reachable env db) {qblockIds : List Hash}
    {genesis : BlockExtendedInfo} (hgenesis : db.blocks[0]? = some genesis)
    (hlast : qblockIds.getLast? = some (env.crypto.getBlockHash genesis.bl)) :
    ∃ offset, SupplementStart env db qblockIds offset ∧
      ((qblockIds.Pairwise fun upper lower => ∀ i j,
          db.BlockAt env upper i → db.BlockAt env lower j → j ≤ i) →
        ∀ id ∈ qblockIds, ∀ height, db.BlockAt env id height → height ≤ offset) ∧
      (∀ db', Reachable env db' → qblockIds = getShortChainHistory env db' →
        HistoryStart env db db' offset) ∧
      findSupplementIds env db qblockIds = .ok {
        startHeight := offset
        totalHeight := db.size
        blockIds := ((db.blocks.drop offset).take blocksIdsSynchronizingDefaultCount).map
          fun bei => (env.crypto.getBlockHash bei.bl, bei.blockCumulativeSize) } ∧
      ∀ maxCount minimumHeight requestCoinbaseInfo, minimumHeight ≤ db.size →
        ∃ blocks, findSupplementBlocks env db qblockIds maxCount minimumHeight requestCoinbaseInfo =
            .ok { startHeight := max minimumHeight offset, totalHeight := db.size, blocks } ∧
          List.Forall₂ (BlockSent env db requestCoinbaseInfo)
            ((db.blocks.drop (max minimumHeight offset)).take maxCount) blocks := by
  have hindexed := h.chainIndexed
  obtain ⟨offset, hoffset, hstart⟩ := findSupplementOffset_ok hindexed hgenesis hlast
  have hbound : offset ≤ db.size := by
    obtain ⟨_, _, _, _, ⟨bei, hbei, _⟩, _⟩ := hstart.first
    exact (List.getElem?_eq_some_iff.mp hbei).1.le
  refine ⟨offset, hstart, ?_, ?_, ?_, ?_⟩
  · exact fun hdown id hid height hat => hstart.highest hdown hid hat hindexed
  · rintro db' _ rfl
    exact hstart.ofHistory
  · obtain ⟨blocks, hblocks, hall⟩ : ∃ blocks, supplementLoop Except.ok db
        blocksIdsSynchronizingDefaultCount offset = .ok blocks ∧
        List.Forall₂ Eq ((db.blocks.drop offset).take blocksIdsSynchronizingDefaultCount) blocks :=
      supplementLoop_ok (fun bei _ => ⟨bei, rfl, rfl⟩) hbound
    rw [List.forall₂_eq_eq_eq] at hall
    have hrun : ∀ k bei, blocks[k]? = some bei → db.blocks[offset + k]? = some bei := by
      intro k bei hbei
      rw [← hall, List.getElem?_take] at hbei
      split at hbei
      · rwa [List.getElem?_drop] at hbei
      · cases hbei
    have hids := blockContextInfos_eq fun k bei next hbei hnext =>
      hindexed.links (offset + k) bei next (hrun k bei hbei) (hrun (k + 1) next hnext)
    rw [findSupplementIds, hoffset]
    dsimp only [bind, Except.bind]
    rw [hblocks, hall, ← hids]
    rfl
  · intro maxCount minimumHeight requestCoinbaseInfo hmin
    have hstartHeight : (if minimumHeight > offset then minimumHeight else offset) =
        max minimumHeight offset := by
      split <;> omega
    obtain ⟨blocks, hblocks, hall⟩ := @supplementLoop_ok _ _ _ _
      (fun bei hbei => blockDirect_ok h hbei requestCoinbaseInfo) maxCount _
      (Nat.max_le.mpr ⟨hmin, hbound⟩)
    refine ⟨blocks, ?_, hall⟩
    rw [findSupplementBlocks, hoffset]
    dsimp only [bind, Except.bind]
    rw [hstartHeight, hblocks]
    rfl

theorem findSupplement_ok_on_sampleMainNode :
    ∃ offset, SupplementStart sampleEnv sampleMainNode.db [7, 2, 1] offset ∧
      ∃ blocks, findSupplementBlocks sampleEnv sampleMainNode.db [7, 2, 1] 5 0 true =
        .ok { startHeight := max 0 offset, totalHeight := sampleMainNode.db.size, blocks } := by
  have hsize : sampleMainNode.db.blocks[0]?.isSome = true := by decide +kernel
  obtain ⟨genesis, hgenesis⟩ := Option.isSome_iff_exists.mp hsize
  have hid : (sampleMainNode.db.blocks[0]?.map fun bei => sampleCrypto.getBlockHash bei.bl) = some 1 := by
    decide +kernel
  rw [hgenesis] at hid
  obtain ⟨offset, hstart, _, _, _, hblocks⟩ := @findSupplement_ok _ _ reachable_sampleMainNode
    [7, 2, 1] genesis hgenesis hid.symm
  obtain ⟨blocks, hrun, _⟩ := hblocks 5 0 true (Nat.zero_le _)
  exact ⟨offset, hstart, blocks, hrun⟩

/-- A list that does not go down is answered from its first common block, here the
genesis block, although the list has block 1 too.  A minimum height above the chain
makes the loop read a block that is not there. -/
theorem findSupplement_below_the_highest :
    Reachable sampleEnv sampleMainNode.db ∧
      findSupplementOffset sampleEnv sampleMainNode.db [1, 2, 1] = .ok 0 ∧
      sampleMainNode.db.BlockAt sampleEnv 2 1 ∧
      (findSupplementBlocks sampleEnv sampleMainNode.db [1] 5 40 false).map
        SupplementBlocks.startHeight = .error .thrown := by
  have hid : (sampleMainNode.db.blocks[1]?.map fun bei => sampleCrypto.getBlockHash bei.bl) = some 2 := by
    decide +kernel
  obtain ⟨bei, hbei, hhash⟩ := Option.map_eq_some_iff.mp hid
  exact ⟨reachable_sampleMainNode, by decide +kernel, ⟨bei, hbei, hhash⟩, by decide +kernel⟩

end Chinet
