import Chinet.Storage.DoubleSpend
import Chinet.Storage.Payments

/-!
# No hidden inflation

A transaction of a block pays out what it spends less its fee.  A coinbase pays out the base reward,
the stake and the fees of its block.

The sums of one transaction are checked for overflow.  The sum of a block is not; where it wraps, the
coinbase pays out less, never more.  So on every main chain the outputs are at most the inputs and the
base rewards.
-/

namespace Chinet

open Procedure FiniteStore

variable {env : Env}

/-! ## The purpose -/

namespace Db

/-- The transactions of a block without its coinbase. -/
def blockPayments (db : Db) (bl : Block) : List Transaction :=
  bl.txHashes.filterMap fun txId => (db.transactions.lookup txId).map TransactionChainEntry.tx

def chainPayments (db : Db) : List Transaction :=
  db.blocks.flatMap fun bei => db.blockPayments bei.bl

/-- The chain below a height. -/
def below (db : Db) (height : Nat) : Db := { db with blocks := db.blocks.take height }

/-- The base reward of the block at a height. -/
def baseReward (db : Db) (height : Nat) (bei : BlockExtendedInfo) : Nat :=
  ((getBlockReward (median (getLastNBlocksSizes (db.below height) currencyRewardBlocksWindow))
    bei.blockCumulativeSize height).getD 0).toNat

end Db

/-- The coins of a chain come from its base rewards, and no sum of amounts wraps. -/
structure NoHiddenInflation (db : Db) : Prop where
  /-- `already_generated_coins` and what was burned are the base rewards together. -/
  bounded : totalOf TransactionPrefix.amountOut db.chainTransactions ≤
    totalOf TransactionPrefix.amountIn db.chainTransactions +
      (db.alreadyGeneratedCoins.toNat + totalOf TransactionPrefix.amountBurned db.chainPayments)
  transactionSums : ∀ tx ∈ db.chainTransactions,
    tx.toTransactionPrefix.amountIn < 2 ^ 64 ∧ tx.toTransactionPrefix.amountOut < 2 ^ 64
  /-- The base reward, the stake and the fees. -/
  blockSums : ∀ (height : Nat) (bei : BlockExtendedInfo), db.blocks[height]? = some bei →
    db.baseReward height bei + bei.bl.minerTx.toTransactionPrefix.amountIn +
      feesOf (db.blockPayments bei.bl) < 2 ^ 64
  generated : ∀ (height : Nat) (bei : BlockExtendedInfo), db.blocks[height]? = some bei →
    totalOf TransactionPrefix.amountBurned (db.blockPayments bei.bl) ≤
        (db.below height).alreadyGeneratedCoins.toNat ∧
      bei.alreadyGeneratedCoins.toNat +
          totalOf TransactionPrefix.amountBurned (db.blockPayments bei.bl) =
        (db.below height).alreadyGeneratedCoins.toNat + db.baseReward height bei

/-- The only two sums of a block that can wrap do not: the coinbase with the fees, which is what the
block spends beyond its payments, and what these burn.  The bound on the outputs, the sums of each
transaction and the counter of a block that burns less need no condition. -/
def TotalsFit (db : Db) : Prop :=
  ∀ (height : Nat) (bei : BlockExtendedInfo), db.blocks[height]? = some bei →
    db.baseReward height bei + totalOf TransactionPrefix.amountIn (db.blockTransactions bei.bl) <
        totalOf TransactionPrefix.amountOut (db.blockPayments bei.bl) + 2 ^ 64 ∧
      totalOf TransactionPrefix.amountBurned (db.blockPayments bei.bl) < 2 ^ 64

/-- The reachable chains, while the pool has each transaction with its fee. -/
inductive FeeReachable (env : Env) : Db → Prop
  | genesis {now : Nat} {bl : Block} {onboard : TransactionsMap} {node node' : Node}
      (hempty : node.db = Db.empty) (htxs : bl.txHashes = [])
      (hrun : handleBlockToMainChain env now bl (env.crypto.getBlockHash bl) onboard node =
        (.ok .addedToMainChain, node')) : FeeReachable env node'.db
  | addBlock {now : Nat} {bl : Block} {onboard : TransactionsMap} {node node' : Node}
      (hreach : FeeReachable env node.db) (hfees : PooledFees node.pool)
      (hrun : handleBlockToMainChain env now bl (env.crypto.getBlockHash bl) onboard node =
        (.ok .addedToMainChain, node')) : FeeReachable env node'.db
  | popBlock {onboard : TransactionsMap} {node node' : Node} (hreach : FeeReachable env node.db)
      (hrun : popBlockFromBlockchain env node = (.ok onboard, node')) : FeeReachable env node'.db

/-! ## The sums of one block -/

namespace BlockRecord

def payments (r : BlockRecord) : List Transaction := r.processed.map fun p => p.entry.tx

/-- Each transaction was counted with the fee it pays. -/
def HasFees (r : BlockRecord) : Prop :=
  ∀ p ∈ r.processed, p.fee = getTxFee p.entry.tx.toTransactionPrefix

end BlockRecord

/-- The base reward of a block on top of `D`. -/
def rewardOn (D : Db) (bei : BlockExtendedInfo) : Nat :=
  ((getBlockReward (median (getLastNBlocksSizes D currencyRewardBlocksWindow))
    bei.blockCumulativeSize D.size).getD 0).toNat

@[simp] theorem totalOf_append (amount : TransactionPrefix → Nat) (txs txs' : List Transaction) :
    totalOf amount (txs ++ txs') = totalOf amount txs + totalOf amount txs' := by
  rw [totalOf, List.map_append, List.sum_append]
  rfl

@[simp] theorem totalOf_cons (amount : TransactionPrefix → Nat) (tx : Transaction)
    (txs : List Transaction) :
    totalOf amount (tx :: txs) = amount tx.toTransactionPrefix + totalOf amount txs := rfl

theorem amountOut_add_feesOf {txs : List Transaction}
    (h : ∀ tx ∈ txs, IsPayment tx.toTransactionPrefix) :
    totalOf TransactionPrefix.amountOut txs + feesOf txs = totalOf TransactionPrefix.amountIn txs := by
  induction txs with
  | nil => rfl
  | cons tx rest ih =>
      obtain ⟨hfirst, hrest⟩ := List.forall_mem_cons.mp h
      have hle := hfirst.amountOut_le
      have hsum := ih hrest
      have hfees : feesOf (tx :: rest) = tx.toTransactionPrefix.amountIn -
          tx.toTransactionPrefix.amountOut + feesOf rest := rfl
      rw [totalOf_cons, totalOf_cons, hfees]
      omega

theorem amountBurned_le (tx : TransactionPrefix) : tx.amountBurned ≤ tx.amountOut :=
  ((List.filter_sublist.map TxOut.amount).map UInt64.toNat).sum_le_sum fun _ _ => Nat.zero_le _

/-- A sum that each transaction adds to, over the transactions of a block. -/
theorem totals_foldl (sum : BlockTotals → UInt64) {amount : ProcessedTx → UInt64}
    (hadd : ∀ t p, sum (t.add p.entry.tx p.blobSize p.fee) = sum t + amount p)
    (ps : List ProcessedTx) (totals : BlockTotals) :
    sum (ps.foldl (fun t p => t.add p.entry.tx p.blobSize p.fee) totals) =
      sum totals + (ps.map amount).sum := by
  induction ps generalizing totals with
  | nil => exact (UInt64.add_zero _).symm
  | cons p rest ih =>
      rw [List.foldl_cons, ih, List.map_cons, List.sum_cons, ← UInt64.add_assoc, hadd]

section

variable {D : Db} {r : BlockRecord}

theorem BlockValid.isPayment (h : BlockValid env D r) :
    ∀ tx ∈ r.payments, IsPayment tx.toTransactionPrefix := by
  intro tx htx
  obtain ⟨p, hp, rfl⟩ := List.mem_map.mp htx
  obtain ⟨_, _, hprocessed⟩ := h.processed p hp
  exact isPayment_of_semantic hprocessed.semantic

theorem BlockValid.feeSummary_toNat (h : BlockValid env D r) (hfees : r.HasFees) :
    (r.totals env).feeSummary.toNat = feesOf r.payments % 2 ^ 64 := by
  have hsum : (r.totals env).feeSummary = (r.processed.map ProcessedTx.fee).sum := by
    rw [BlockRecord.totals, totals_foldl BlockTotals.feeSummary fun _ _ => rfl]
    exact UInt64.zero_add _
  have hall : (r.processed.map ProcessedTx.fee).map UInt64.toNat = r.payments.map fun tx =>
      tx.toTransactionPrefix.amountIn - tx.toTransactionPrefix.amountOut := by
    rw [BlockRecord.payments, List.map_map, List.map_map]
    refine List.map_congr_left fun p hp => ?_
    have hpayment := h.isPayment p.entry.tx (List.mem_map_of_mem hp)
    exact (congrArg UInt64.toNat (hfees p hp)).trans hpayment.getTxFee_toNat
  rw [hsum, WordSums.toNat_sum, WordSums.total, hall, feesOf]

theorem BlockValid.burnedCoins_toNat (h : BlockValid env D r) :
    (r.totals env).burnedCoins.toNat =
      totalOf TransactionPrefix.amountBurned r.payments % 2 ^ 64 := by
  have hsum : (r.totals env).burnedCoins =
      (r.processed.map fun p => getBurnedAmount p.entry.tx.toTransactionPrefix).sum := by
    rw [BlockRecord.totals, totals_foldl BlockTotals.burnedCoins fun _ _ => rfl]
    exact UInt64.zero_add _
  have hall : (r.processed.map fun p => getBurnedAmount p.entry.tx.toTransactionPrefix).map
      UInt64.toNat = r.payments.map fun tx => tx.toTransactionPrefix.amountBurned := by
    rw [BlockRecord.payments, List.map_map, List.map_map]
    refine List.map_congr_left fun p hp => ?_
    have hpayment := h.isPayment p.entry.tx (List.mem_map_of_mem hp)
    exact WordSums.toNat_sum_of_lt (lt_of_le_of_lt (amountBurned_le _) hpayment.amountOut_lt)
  rw [hsum, WordSums.toNat_sum, WordSums.total, hall, totalOf]

/-- The stake that `validate_miner_transaction` reads. -/
theorem stake_toNat {bl : Block} {height : Nat}
    (h : prevalidateMinerTransaction env bl height (isPosBlock bl) = .ok ()) :
    (if isPosBlock bl then ((coinstakeInput? bl.minerTx).map TxinToKey.amount).getD 0
      else 0).toNat = bl.minerTx.toTransactionPrefix.amountIn ∧
    bl.minerTx.toTransactionPrefix.amountIn < 2 ^ 64 ∧ getBlockHeight bl = height ∧
    bl.minerTx.toTransactionPrefix.amountOut < 2 ^ 64 := by
  unfold prevalidateMinerTransaction at h
  rw [require_bind_eq_ok] at h
  obtain ⟨hshape, h⟩ := h
  rw [bind_eq_ok] at h
  obtain ⟨_, _, h⟩ := h
  rw [require_bind_eq_ok] at h
  obtain ⟨hout, _⟩ := h
  rw [checkOutsOverflow, noOverflowFrom_iff, UInt64.toNat_zero, Nat.zero_add] at hout
  split at hshape
  · rename_i genHeight hvin
    simp only [Bool.and_eq_true, Bool.not_eq_true', decide_eq_true_eq] at hshape
    have hin : bl.minerTx.toTransactionPrefix.amountIn = 0 := by
      rw [TransactionPrefix.amountIn, hvin]
      rfl
    rw [hshape.1, hin, getBlockHeight, hvin]
    exact ⟨rfl, by decide, hshape.2, hout⟩
  · rename_i genHeight input hvin
    simp only [Bool.and_eq_true, decide_eq_true_eq] at hshape
    have hin : bl.minerTx.toTransactionPrefix.amountIn = input.amount.toNat := by
      rw [TransactionPrefix.amountIn, hvin]
      exact (Nat.zero_add _).trans (Nat.add_zero _)
    rw [hshape.1, hin, getBlockHeight, coinstakeInput?, hvin]
    exact ⟨rfl, input.amount.toNat_lt, hshape.2, hout⟩
  · cases hshape

theorem validateMinerTransaction_ok {db : Db} {bl : Block} {size : Nat} {fee baseReward : UInt64}
    (h : validateMinerTransaction db bl size fee = .ok baseReward) :
    getBlockReward (median (getLastNBlocksSizes db currencyRewardBlocksWindow)) size
        (getBlockHeight bl) = some baseReward ∧
      baseReward + (if isPosBlock bl then ((coinstakeInput? bl.minerTx).map TxinToKey.amount).getD 0
        else 0) + fee = getOutsMoneyAmount bl.minerTx.toTransactionPrefix := by
  unfold validateMinerTransaction at h
  dsimp only at h
  split at h
  · cases h
  · rename_i reward hreward
    rw [require_bind_eq_ok, decide_eq_true_eq] at h
    obtain ⟨hpays, h⟩ := h
    cases h
    exact ⟨hreward, hpays⟩

theorem getLastNBlocksSizes_congr {db db' : Db} (h : db.blocks = db'.blocks) (count : Nat) :
    getLastNBlocksSizes db count = getLastNBlocksSizes db' count := by
  rw [getLastNBlocksSizes, getLastNBlocksSizes, Db.size, Db.size, h]

theorem alreadyGeneratedCoins_congr {db db' : Db} (h : db.blocks = db'.blocks) :
    db.alreadyGeneratedCoins = db'.alreadyGeneratedCoins := by
  rw [Db.alreadyGeneratedCoins, Db.alreadyGeneratedCoins, h]

/-- What a block on top of `D` pays out and burns. -/
structure BlockSums (D : Db) (r : BlockRecord) : Prop where
  reward_lt : rewardOn D r.bei < 2 ^ 64
  coinbaseIn_lt : r.bei.bl.minerTx.toTransactionPrefix.amountIn < 2 ^ 64
  coinbaseOut : r.bei.bl.minerTx.toTransactionPrefix.amountOut =
    (rewardOn D r.bei + r.bei.bl.minerTx.toTransactionPrefix.amountIn + feesOf r.payments) % 2 ^ 64
  burned_le : totalOf TransactionPrefix.amountBurned r.payments % 2 ^ 64 ≤
    D.alreadyGeneratedCoins.toNat
  generated : r.bei.alreadyGeneratedCoins.toNat = (D.alreadyGeneratedCoins.toNat -
    totalOf TransactionPrefix.amountBurned r.payments % 2 ^ 64 + rewardOn D r.bei) % 2 ^ 128

theorem BlockValid.sums (h : BlockValid env D r) (hfees : r.HasFees) : BlockSums D r := by
  obtain ⟨now, id, diff, stakeHash, hheader⟩ := h.header
  obtain ⟨hstake, hstakeFits, hheight, hout⟩ := stake_toNat hheader.minerTx
  obtain ⟨id', count, baseReward, hinfo⟩ := h.info
  obtain ⟨hreward, hpays⟩ := validateMinerTransaction_ok hinfo.minerTx
  have hblocks : (applyEntries env r.entries D).blocks = D.blocks :=
    congrArg Prod.fst (@applyEntries_chainView env r.entries D)
  rw [getLastNBlocksSizes_congr hblocks, hheight, ← hinfo.size] at hreward
  have hrewardOn : rewardOn D r.bei = baseReward.toNat := by
    rw [rewardOn, hreward, Option.getD_some]
  have hburned := hinfo.burned
  have hgenerated := hinfo.generated
  rw [alreadyGeneratedCoins_congr hblocks, h.burnedCoins_toNat] at hburned hgenerated
  refine ⟨?_, hstakeFits, ?_, hburned, ?_⟩
  · rw [hrewardOn]
    exact baseReward.toNat_lt
  · have hsum : (getOutsMoneyAmount r.bei.bl.minerTx.toTransactionPrefix).toNat =
        r.bei.bl.minerTx.toTransactionPrefix.amountOut := WordSums.toNat_sum_of_lt hout
    rw [← hsum, ← hpays, UInt64.toNat_add, UInt64.toNat_add, hstake, h.feeSummary_toNat hfees,
      hrewardOn, ← Nat.add_mod]
  · rw [hgenerated, hrewardOn]
    have hreward' := baseReward.toNat_lt
    rw [BitVec.toNat_add, BitVec.toNat_sub_of_le, BitVec.toNat_ofNat, BitVec.toNat_ofNat,
      Nat.mod_eq_of_lt (show totalOf TransactionPrefix.amountBurned r.payments % 2 ^ 64 < 2 ^ 128 by
        omega), Nat.mod_eq_of_lt (show baseReward.toNat < 2 ^ 128 by omega)]
    rw [BitVec.le_def, BitVec.toNat_ofNat, Nat.mod_eq_of_lt (by omega)]
    exact hburned

end

/-! ## The sums of a chain -/

section

variable {records : List BlockRecord} {db : Db}

/-- Each record of a history was added on top of the history below it. -/
theorem History.below_record (h : History env records db) {i : Nat} {r : BlockRecord}
    (hr : records[i]? = some r) : ∃ D, History env (records.take i) D ∧ BlockValid env D r := by
  induction h with
  | empty hsame hblocks => cases hr
  | @snoc records D db new hist hvalid hsame hblocks ih =>
      by_cases hi : i < records.length
      · rw [List.getElem?_append_left hi] at hr
        rw [List.take_append_of_le_length (by omega)]
        exact ih hr
      · have hlast : i = records.length := by
          have hlt := (List.getElem?_eq_some_iff.mp hr).1
          rw [List.length_append, List.length_singleton] at hlt
          omega
        rw [hlast, List.getElem?_concat_length] at hr
        cases hr
        rw [hlast, List.take_left]
        exact ⟨D, hist, hvalid⟩

theorem History.blocks_below (h : History env records db) {D : Db} {i : Nat}
    (hD : History env (records.take i) D) : D.blocks = (db.below i).blocks := by
  rw [hD.blocks_eq, Db.below, h.blocks_eq, List.map_take]

theorem baseReward_eq_rewardOn {D : Db} {i : Nat} (hblocks : D.blocks = (db.below i).blocks)
    (hsize : D.size = i) (bei : BlockExtendedInfo) : db.baseReward i bei = rewardOn D bei := by
  rw [Db.baseReward, rewardOn, getLastNBlocksSizes_congr hblocks, hsize]

theorem History.blockPayments_eq (h : History env records db) {r : BlockRecord} (hr : r ∈ records) :
    db.blockPayments r.bei.bl = r.payments := by
  have htransactions := h.blockTransactions_eq hr
  rw [Db.blockTransactions, BlockRecord.entries, List.map_cons, List.map_map] at htransactions
  exact (List.cons.inj htransactions).2

theorem History.chainPayments_eq (h : History env records db) :
    db.chainPayments = records.flatMap BlockRecord.payments := by
  rw [Db.chainPayments, h.blocks_eq, List.flatMap_map]
  exact List.flatMap_congr fun r hr => h.blockPayments_eq hr

def BlockRecord.transactions (r : BlockRecord) : List Transaction := r.bei.bl.minerTx :: r.payments

theorem History.chainTransactions_eq_transactions (h : History env records db) :
    db.chainTransactions = records.flatMap BlockRecord.transactions := by
  rw [Db.chainTransactions, h.blocks_eq, List.flatMap_map]
  refine List.flatMap_congr fun r hr => ?_
  exact congrArg (r.bei.bl.minerTx :: ·) (h.blockPayments_eq hr)

/-- The outputs of a chain are at most its inputs, what it has generated and what it has burned. -/
theorem History.bounded (h : History env records db) (hfees : ∀ r ∈ records, r.HasFees)
    (hlength : records.length < 2 ^ 64) :
    db.alreadyGeneratedCoins.toNat ≤ records.length * 2 ^ 64 ∧
      totalOf TransactionPrefix.amountOut (records.flatMap BlockRecord.transactions) ≤
        totalOf TransactionPrefix.amountIn (records.flatMap BlockRecord.transactions) +
          (db.alreadyGeneratedCoins.toNat +
            totalOf TransactionPrefix.amountBurned (records.flatMap BlockRecord.payments)) := by
  induction h with
  | empty hsame hblocks =>
      rw [Db.alreadyGeneratedCoins, hblocks]
      exact ⟨Nat.le_refl _, Nat.le_refl _⟩
  | @snoc records D db r hist hvalid hsame hblocks ih =>
      rw [List.length_append, List.length_singleton] at hlength ⊢
      obtain ⟨hgenerated, hbounded⟩ :=
        ih (fun r' hr' => hfees r' (List.mem_append_left _ hr')) (by omega)
      have hsums := hvalid.sums (hfees r (List.mem_append_right _ List.mem_cons_self))
      have hpayments := amountOut_add_feesOf hvalid.isPayment
      have hlast : db.alreadyGeneratedCoins = r.bei.alreadyGeneratedCoins := by
        rw [Db.alreadyGeneratedCoins, hblocks, List.getLast?_concat]
        rfl
      have hreward := hsums.reward_lt
      have hburned := hsums.burned_le
      -- the counter stays below `2 ^ 128`
      have hcounter : r.bei.alreadyGeneratedCoins.toNat = D.alreadyGeneratedCoins.toNat -
          totalOf TransactionPrefix.amountBurned r.payments % 2 ^ 64 + rewardOn D r.bei := by
        rw [hsums.generated]
        apply Nat.mod_eq_of_lt
        have hsmall : (records.length + 1) * 2 ^ 64 ≤ 2 ^ 64 * 2 ^ 64 :=
          Nat.mul_le_mul_right _ (by omega)
        omega
      -- the coinbase pays at most the sum, wherever that wraps
      have hcoinbase : r.bei.bl.minerTx.toTransactionPrefix.amountOut ≤ rewardOn D r.bei +
          r.bei.bl.minerTx.toTransactionPrefix.amountIn + feesOf r.payments := by
        rw [hsums.coinbaseOut]
        exact Nat.mod_le _ _
      have hwrapped := Nat.mod_le (totalOf TransactionPrefix.amountBurned r.payments) (2 ^ 64)
      rw [hlast, hcounter]
      simp only [List.flatMap_append, List.flatMap_singleton, totalOf_append,
        BlockRecord.transactions, totalOf_cons]
      constructor
      · omega
      · omega

end

/-! ## Reachable chains -/

/-- Adding a block takes transactions out of the pool and puts none in. -/
theorem pool_of_addBlockTransactions {now : Nat} {bl : Block} {id : Hash} {onboard : TransactionsMap}
    {n : Nat} {totals totals' : BlockTotals} {txIds : List Hash} {node node' : Node}
    (hsize : node.db.size ≠ 0)
    (h : addBlockTransactions env now bl id onboard n totals txIds node = (.ok totals', node'))
    (hfees : PooledFees node.pool) : PooledFees node'.pool := by
  induction txIds generalizing n totals node with
  | nil =>
      cases h
      exact hfees
  | cons txId rest ih =>
      rw [addBlockTransactions, bind_ok_iff] at h
      obtain ⟨totals₁, n₁, hfirst, hrest⟩ := h
      rw [onReject_ok_iff] at hfirst
      obtain ⟨p, hp, _⟩ := addBlockTransaction_ok hsize hfirst
      refine ih ?_ hrest ?_
      · rw [hp.db_eq]
        exact fun hzero => hsize ((size_of_chainView (applyEntry_chainView _ _ _)).symm.trans hzero)
      · rw [hp.pool_eq]
        intro other details hdetails
        rw [lookup_erase_ite] at hdetails
        split at hdetails
        · cases hdetails
        · exact hfees other details hdetails

theorem AddedBlock.pooledFees {now : Nat} {bl : Block} {id : Hash} {onboard : TransactionsMap}
    {node node' : Node} (s : AddedBlock env now bl id onboard node node')
    (hgenesis : node.db.size = 0 → bl.txHashes = []) (hfees : PooledFees node.pool) :
    PooledFees node'.pool := by
  have hheader : s.afterHeader.pool = node.pool := congrArg (fun store => store.2.1) s.store_afterHeader
  have hcoinbase : s.afterCoinbase.pool = node.pool :=
    ((keeps_pool_addTransactionFromBlock _ _ _).eq_of_run s.coinbase).trans hheader
  have hinfo : s.afterInfo.pool = s.afterTransactions.pool :=
    congrArg (fun store => store.2.1) s.store_afterInfo
  have hresult : node'.pool = s.afterInfo.pool := (congrArg Node.pool s.result).trans rfl
  have hframe : s.afterCoinbase.frame = node.frame :=
    ((keeps_addTransactionFromBlock env bl.minerTx _ node.db.size).eq_of_run s.coinbase).trans
      ((keeps_frame_of_store (keeps_checkBlockHeader env now bl id)).eq_of_run s.header)
  have hsize : s.afterCoinbase.db.size = node.db.size :=
    size_of_chainView (congrArg Prod.fst hframe)
  rw [hresult, hinfo]
  by_cases hzero : node.db.size = 0
  · have htxs := s.transactions
    rw [hgenesis hzero] at htxs
    obtain ⟨_, hnode⟩ := Prod.mk.inj htxs
    rw [← hnode, hcoinbase]
    exact hfees
  · refine pool_of_addBlockTransactions (by rw [hsize]; exact hzero) s.transactions ?_
    rw [hcoinbase]
    exact hfees

namespace FeeReachable

variable {db : Db}

theorem reachable (h : FeeReachable env db) : Reachable env db := by
  induction h with
  | genesis hempty htxs hrun => exact .genesis hempty htxs hrun
  | addBlock _ _ hrun ih => exact ih.addBlock hrun
  | popBlock _ hrun ih => exact ih.popBlock hrun

theorem history (h : FeeReachable env db) :
    ∃ records, History env records db ∧ ∀ r ∈ records, r.HasFees := by
  induction h with
  | @genesis now bl onboard node node' hempty htxs hrun =>
      obtain ⟨s⟩ := handleBlockToMainChain_added hrun
      obtain ⟨r, hr⟩ := s.record fun _ => htxs
      refine ⟨_, hr.history (History.empty ?_ ?_), ?_⟩
      · rw [hempty]
        exact SameLedger.refl _
      · rw [hempty]
        rfl
      · intro r' hr'
        obtain rfl := List.mem_singleton.mp hr'
        have hnone : r'.processed = [] := by
          rw [← List.map_eq_nil_iff, hr.valid.txIds, hr.bl_eq, htxs]
        rw [BlockRecord.HasFees, hnone]
        exact nofun
  | @addBlock now bl onboard node node' hreach hpool hrun ih =>
      obtain ⟨records, hist, hfees⟩ := ih
      obtain ⟨s⟩ := handleBlockToMainChain_added hrun
      obtain ⟨r, hr⟩ := s.record fun hzero => absurd hzero hreach.reachable.size_ne_zero
      refine ⟨_, hr.history hist, ?_⟩
      intro r' hr'
      rcases List.mem_append.mp hr' with hold | hnew
      · exact hfees r' hold
      · obtain rfl := List.mem_singleton.mp hnew
        intro p hp
        obtain ⟨tx, zone, hgiven, htx⟩ := (hr.given p hp).given
        have hsame : p.entry.tx.toTransactionPrefix = tx.toTransactionPrefix := by
          rw [htx, toTransactionPrefix_pruneForCheckpointZone]
        rw [hsame]
        exact fee_of_given hpool hgiven
  | popBlock hreach hrun ih =>
      obtain ⟨records, hist, hfees⟩ := ih
      obtain ⟨s⟩ := popBlockFromBlockchain_ok hrun
      obtain ⟨records', r, rfl⟩ := s.records_concat hist
      exact ⟨records', s.history_concat hist, fun r' hr' => hfees r' (List.mem_append_left _ hr')⟩

end FeeReachable

/-- The bound on the outputs of a chain does not depend on any sum of a block. -/
theorem FeeReachable.bounded {db : Db} (h : FeeReachable env db) (hlength : db.size < 2 ^ 64) :
    totalOf TransactionPrefix.amountOut db.chainTransactions ≤
      totalOf TransactionPrefix.amountIn db.chainTransactions +
        (db.alreadyGeneratedCoins.toNat +
          totalOf TransactionPrefix.amountBurned db.chainPayments) := by
  obtain ⟨records, hist, hfees⟩ := h.history
  rw [Db.size, hist.blocks_eq, List.length_map] at hlength
  rw [hist.chainTransactions_eq_transactions, hist.chainPayments_eq]
  exact (hist.bounded hfees hlength).2

theorem FeeReachable.transactionSums {db : Db} (h : FeeReachable env db) :
    ∀ tx ∈ db.chainTransactions,
      tx.toTransactionPrefix.amountIn < 2 ^ 64 ∧ tx.toTransactionPrefix.amountOut < 2 ^ 64 := by
  obtain ⟨records, hist, hfees⟩ := h.history
  rw [hist.chainTransactions_eq_transactions]
  intro tx htx
  obtain ⟨r, hr, htx⟩ := List.mem_flatMap.mp htx
  obtain ⟨D, hvalid⟩ := hist.blockValid r hr
  rcases List.mem_cons.mp htx with rfl | hpayment
  · have hsums := hvalid.sums (hfees r hr)
    refine ⟨hsums.coinbaseIn_lt, ?_⟩
    rw [hsums.coinbaseOut]
    exact Nat.mod_lt _ (by decide)
  · have hpays := hvalid.isPayment tx hpayment
    exact ⟨hpays.amountIn_lt, hpays.amountOut_lt⟩

/-- The block at a height has the sums of a record on top of `D`, the chain below it. -/
structure SumsAt (db : Db) (height : Nat) (bei : BlockExtendedInfo) (D : Db) (r : BlockRecord) :
    Prop where
  bei_eq : r.bei = bei
  sums : BlockSums D r
  payments_eq : db.blockPayments bei.bl = r.payments
  reward_eq : db.baseReward height bei = rewardOn D r.bei
  before_eq : (db.below height).alreadyGeneratedCoins = D.alreadyGeneratedCoins
  before_le : D.alreadyGeneratedCoins.toNat + 2 ^ 64 ≤ 2 ^ 128
  balance : totalOf TransactionPrefix.amountOut r.payments + feesOf r.payments =
    totalOf TransactionPrefix.amountIn r.payments

theorem FeeReachable.sumsAt {db : Db} (h : FeeReachable env db) (hlength : db.size < 2 ^ 64)
    {height : Nat} {bei : BlockExtendedInfo} (hbei : db.blocks[height]? = some bei) :
    ∃ D r, SumsAt db height bei D r := by
  obtain ⟨records, hist, hfees⟩ := h.history
  rw [Db.size, hist.blocks_eq, List.length_map] at hlength
  rw [hist.blocks_eq, List.getElem?_map, Option.map_eq_some_iff] at hbei
  obtain ⟨r, hr, rfl⟩ := hbei
  obtain ⟨D, hD, hvalid⟩ := hist.below_record hr
  have hmem := List.mem_of_getElem? hr
  have hheight : height < records.length := (List.getElem?_eq_some_iff.mp hr).1
  have hblocks := hist.blocks_below hD
  have hsize : D.size = height := by
    rw [Db.size, hD.blocks_eq, List.length_map, List.length_take, Nat.min_eq_left (by omega)]
  have hsmall := (hD.bounded (fun r' hr' => hfees r' (List.mem_of_mem_take hr'))
    (by rw [List.length_take]; omega)).1
  rw [List.length_take, Nat.min_eq_left (by omega)] at hsmall
  have hbefore : D.alreadyGeneratedCoins.toNat + 2 ^ 64 ≤ 2 ^ 128 := by
    calc D.alreadyGeneratedCoins.toNat + 2 ^ 64
      _ ≤ height * 2 ^ 64 + 2 ^ 64 := Nat.add_le_add_right hsmall _
      _ = (height + 1) * 2 ^ 64 := by ring
      _ ≤ 2 ^ 64 * 2 ^ 64 := Nat.mul_le_mul_right _ (by omega)
      _ = 2 ^ 128 := by norm_num
  exact ⟨D, r, {
    bei_eq := rfl
    sums := hvalid.sums (hfees r hmem)
    payments_eq := hist.blockPayments_eq hmem
    reward_eq := baseReward_eq_rewardOn hblocks hsize _
    before_eq := alreadyGeneratedCoins_congr hblocks.symm
    before_le := hbefore
    balance := amountOut_add_feesOf hvalid.isPayment }⟩

namespace SumsAt

variable {db : Db} {height : Nat} {bei : BlockExtendedInfo} {D : Db} {r : BlockRecord}
  (h : SumsAt db height bei D r)

include h

theorem blockSum_iff :
    db.baseReward height bei + bei.bl.minerTx.toTransactionPrefix.amountIn +
        feesOf (db.blockPayments bei.bl) < 2 ^ 64 ↔
      db.baseReward height bei + totalOf TransactionPrefix.amountIn (db.blockTransactions bei.bl) <
        totalOf TransactionPrefix.amountOut (db.blockPayments bei.bl) + 2 ^ 64 := by
  have htransactions : db.blockTransactions bei.bl = bei.bl.minerTx :: db.blockPayments bei.bl := rfl
  have hbalance := h.balance
  rw [htransactions, totalOf_cons, h.payments_eq]
  omega

/-- The counter is right exactly if what is burned does not wrap. -/
theorem generated_iff :
    totalOf TransactionPrefix.amountBurned (db.blockPayments bei.bl) ≤
          (db.below height).alreadyGeneratedCoins.toNat ∧
        bei.alreadyGeneratedCoins.toNat +
            totalOf TransactionPrefix.amountBurned (db.blockPayments bei.bl) =
          (db.below height).alreadyGeneratedCoins.toNat + db.baseReward height bei ↔
      totalOf TransactionPrefix.amountBurned (db.blockPayments bei.bl) < 2 ^ 64 := by
  have hcounter := h.sums.generated
  have hburned := h.sums.burned_le
  have hreward := h.sums.reward_lt
  have hbefore := h.before_le
  have hwrapped := Nat.mod_lt (totalOf TransactionPrefix.amountBurned r.payments)
    (show 0 < 2 ^ 64 by decide)
  rw [Nat.mod_eq_of_lt (by omega)] at hcounter
  rw [h.payments_eq, h.reward_eq, h.before_eq, ← h.bei_eq]
  constructor
  · rintro ⟨hle, hgenerated⟩
    have hsame : totalOf TransactionPrefix.amountBurned r.payments =
        totalOf TransactionPrefix.amountBurned r.payments % 2 ^ 64 := by omega
    omega
  · intro hfits
    rw [Nat.mod_eq_of_lt hfits] at hburned hcounter
    exact ⟨hburned, by omega⟩

end SumsAt

/-- On every main chain no coins come from anywhere but the base rewards, and no sum wraps exactly if
the totals of each block fit. -/
theorem noHiddenInflation_iff {db : Db} (h : FeeReachable env db) (hlength : db.size < 2 ^ 64) :
    NoHiddenInflation db ↔ TotalsFit db := by
  constructor
  · intro hsafe height bei hbei
    obtain ⟨D, r, hsums⟩ := h.sumsAt hlength hbei
    have hpaid := hsafe.blockSums height bei hbei
    have hgenerated := hsafe.generated height bei hbei
    exact ⟨hsums.blockSum_iff.mp hpaid, hsums.generated_iff.mp hgenerated⟩
  · intro hfit
    refine ⟨h.bounded hlength, h.transactionSums, fun height bei hbei => ?_,
      fun height bei hbei => ?_⟩
    · obtain ⟨D, r, hsums⟩ := h.sumsAt hlength hbei
      exact hsums.blockSum_iff.mpr (hfit height bei hbei).1
    · obtain ⟨D, r, hsums⟩ := h.sumsAt hlength hbei
      exact hsums.generated_iff.mpr (hfit height bei hbei).2

/-! ## Runs -/

theorem pooledFees_empty : PooledFees ∅ := fun id details hdetails => by cases hdetails

theorem FeeReachable.of_addBlocks {now : Nat} {onboard : TransactionsMap} {blocks : List Block}
    {node node' : Node} (hreach : FeeReachable env node.db) (hfees : PooledFees node.pool)
    (h : addBlocks env now onboard blocks node = some node') : FeeReachable env node'.db := by
  induction blocks generalizing node with
  | nil =>
      cases h
      exact hreach
  | cons bl rest ih =>
      rw [addBlocks] at h
      split at h
      · rename_i n hrun
        obtain ⟨s⟩ := handleBlockToMainChain_added hrun
        exact ih (hreach.addBlock hfees hrun)
          (s.pooledFees (fun hzero => absurd hzero hreach.reachable.size_ne_zero) hfees) h
      · cases h

/-- A run from the empty node, if every block is accepted. -/
theorem feeReachable_of_isSome_addBlocks {now : Nat} {onboard : TransactionsMap} {genesis : Block}
    {rest : List Block} (htxs : genesis.txHashes = [])
    (h : (addBlocks env now onboard (genesis :: rest) emptyNode).isSome = true) :
    FeeReachable env ((addBlocks env now onboard (genesis :: rest) emptyNode).getD emptyNode).db := by
  obtain ⟨node, hnode⟩ := Option.isSome_iff_exists.mp h
  rw [hnode, Option.getD_some]
  rw [addBlocks] at hnode
  split at hnode
  · rename_i n hrun
    obtain ⟨s⟩ := handleBlockToMainChain_added hrun
    exact (FeeReachable.genesis rfl htxs hrun).of_addBlocks
      (s.pooledFees (fun _ => htxs) pooledFees_empty) hnode
  · cases hnode

instance (db : Db) : Decidable (TotalsFit db) :=
  decidable_of_iff (∀ p ∈ db.blocks.zipIdx,
    db.baseReward p.2 p.1 + totalOf TransactionPrefix.amountIn (db.blockTransactions p.1.bl) <
        totalOf TransactionPrefix.amountOut (db.blockPayments p.1.bl) + 2 ^ 64 ∧
      totalOf TransactionPrefix.amountBurned (db.blockPayments p.1.bl) < 2 ^ 64) (by
    constructor
    · intro h height bei hbei
      exact h (bei, height) (List.mk_mem_zipIdx_iff_getElem?.mpr hbei)
    · rintro h ⟨bei, height⟩ hmem
      exact h height bei (List.mk_mem_zipIdx_iff_getElem?.mp hmem))

theorem noHiddenInflation_on_doubleSpendNode : NoHiddenInflation doubleSpendNode.db := by
  have hrun : (addBlocks sampleEnv 100000
      (Finmap.singleton (getTransactionHash sampleCrypto doubleSpendTx) doubleSpendTx)
      doubleSpendBlocks emptyNode).isSome = true := by
    decide +kernel
  exact (noHiddenInflation_iff (feeReachable_of_isSome_addBlocks rfl hrun) (by decide +kernel)).mpr
    (by decide +kernel)

/-- A transaction that spends one multisig output 128 times. -/
def manyfoldTx (key : PublicKey) (source : Nat) (amount : UInt64) (outs : List UInt64) : Transaction :=
  sampleMultisigTx key (List.replicate 128 (sampleMultisigInput 0 source amount))
    (outs.map sampleMultisigOut)

/-- The first two make `128 * 128` rewards of one, the others leave them to the fees, 128 times. -/
def manyfoldTxs : List Transaction := [
  manyfoldTx 999 1 currencyBlockReward [128 * currencyBlockReward],
  manyfoldTx 998 998 (128 * currencyBlockReward)
    [8192 * currencyBlockReward, 8191 * currencyBlockReward],
  manyfoldTx 997 997 (8192 * currencyBlockReward) [1],
  manyfoldTx 996 997 (8191 * currencyBlockReward) [1]]

def manyfoldOnboard : TransactionsMap :=
  manyfoldTxs.foldl (fun txs tx => txs.insert (getTransactionHash sampleCrypto tx) tx) ∅

/-- Eleven plain blocks and one with `manyfoldTxs`, whose fees wrap. -/
def manyfoldBlocks : List Block :=
  (List.range 11).map samplePlainBlock ++
    [sampleBlock 0 11 11
      [sampleMultisigOut (currencyBlockReward +
        (manyfoldTxs.map fun tx => getTxFee tx.toTransactionPrefix).sum)]
      (manyfoldTxs.map (getTransactionHash sampleCrypto))]

def manyfoldNode : Node :=
  (addBlocks sampleEnv 100000 manyfoldOnboard manyfoldBlocks emptyNode).getD emptyNode

/-- The sum of the fees wraps in a block that is accepted. -/
theorem fees_wrap_on_manyfoldNode :
    FeeReachable sampleEnv manyfoldNode.db ∧ ¬ NoHiddenInflation manyfoldNode.db := by
  have hrun : (addBlocks sampleEnv 100000 manyfoldOnboard manyfoldBlocks emptyNode).isSome = true := by
    decide +kernel
  have hwraps : ¬ ∀ p ∈ manyfoldNode.db.blocks.zipIdx,
      manyfoldNode.db.baseReward p.2 p.1 + p.1.bl.minerTx.toTransactionPrefix.amountIn +
        feesOf (manyfoldNode.db.blockPayments p.1.bl) < 2 ^ 64 := by
    decide +kernel
  refine ⟨feeReachable_of_isSome_addBlocks rfl hrun, fun h => hwraps fun p hp => ?_⟩
  exact h.blockSums p.2 p.1 (List.mk_mem_zipIdx_iff_getElem?.mp hp)

end Chinet
