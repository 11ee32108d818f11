import Chinet.Lib.WordSums
import Chinet.Pool.Indexes
import Chinet.Storage.History

/-!
# What a transaction pays

A transaction that passes `validate_tx_semantic` pays out at most what it spends, and neither sum
wraps.  So its fee is the difference, in `get_tx_fee` as in the pool, which keeps the fee with the
transaction.
-/

namespace Chinet

open Procedure FiniteStore

variable {env : Env}

/-! ## Amounts as numbers -/

namespace TransactionPrefix

def amountIn (tx : TransactionPrefix) : Nat := WordSums.total (tx.vin.map Txin.amount)

def amountOut (tx : TransactionPrefix) : Nat := WordSums.total (tx.vout.map TxOut.amount)

def amountBurned (tx : TransactionPrefix) : Nat :=
  WordSums.total ((tx.vout.filter TxOut.isBurned).map TxOut.amount)

end TransactionPrefix

/-- An amount of all transactions of a list. -/
def totalOf (amount : TransactionPrefix → Nat) (txs : List Transaction) : Nat :=
  (txs.map fun tx => amount tx.toTransactionPrefix).sum

def feesOf (txs : List Transaction) : Nat :=
  (txs.map fun tx => tx.toTransactionPrefix.amountIn - tx.toTransactionPrefix.amountOut).sum

/-! ## The sums of one transaction -/

theorem noOverflowFrom_iff {money : UInt64} {amounts : List UInt64} :
    noOverflowFrom money amounts = true ↔ money.toNat + WordSums.total amounts < 2 ^ 64 := by
  induction amounts generalizing money with
  | nil =>
      have hmoney := money.toNat_lt
      rw [noOverflowFrom, WordSums.total_nil, Nat.add_zero]
      exact iff_of_true rfl hmoney
  | cons amount rest ih =>
      have hfits := WordSums.add_fits_iff money amount
      rw [noOverflowFrom, WordSums.total_cons]
      split
      · rename_i hwraps
        have hbig : ¬ money.toNat + amount.toNat < 2 ^ 64 := fun h => hfits.mpr h hwraps
        exact iff_of_false Bool.false_ne_true (by omega)
      · rename_i hsum
        rw [ih, UInt64.toNat_add, Nat.mod_eq_of_lt (hfits.mp hsum), Nat.add_assoc]

theorem inputsMoneyFrom_le (money : UInt64) (inputs : List Txin) :
    (inputsMoneyFrom money inputs).2.toNat ≤
      money.toNat + WordSums.total (inputs.map Txin.amount) := by
  induction inputs generalizing money with
  | nil => exact Nat.le_refl _
  | cons input rest ih =>
      rw [inputsMoneyFrom, List.map_cons, WordSums.total_cons]
      split
      · exact Nat.le_add_right _ _
      · have hsum : (money + input.amount).toNat ≤ money.toNat + input.amount.toNat := by
          rw [UInt64.toNat_add]
          exact Nat.mod_le _ _
        calc (inputsMoneyFrom (money + input.amount) rest).2.toNat
          _ ≤ (money + input.amount).toNat + WordSums.total (rest.map Txin.amount) := ih _
          _ ≤ money.toNat + (input.amount.toNat + WordSums.total (rest.map Txin.amount)) := by omega

/-- Without an input of zero all inputs are summed up. -/
theorem inputsMoneyFrom_positive {money : UInt64} {inputs : List Txin}
    (h : (inputsMoneyFrom money inputs).1 = true) :
    (inputsMoneyFrom money inputs).2 = money + (inputs.map Txin.amount).sum := by
  induction inputs generalizing money with
  | nil => exact (UInt64.add_zero money).symm
  | cons input rest ih =>
      rw [inputsMoneyFrom] at h ⊢
      split at h
      · cases h
      · rename_i hpositive
        rw [if_neg hpositive, ih h, List.map_cons, List.sum_cons, UInt64.add_assoc]

theorem isCoinbase_of_supported {tx : TransactionPrefix} (h : checkInputsTypesSupported tx = true) :
    isCoinbase tx = false := by
  rw [checkInputsTypesSupported, List.all_eq_true] at h
  unfold isCoinbase
  split
  · rename_i height hvin
    have hgen := h (.gen height) (by rw [hvin]; exact List.mem_cons_self)
    cases hgen
  · rename_i height input hvin
    have hgen := h (.gen height) (by rw [hvin]; exact List.mem_cons_self)
    cases hgen
  · rfl

/-- A transaction that spends what it pays. -/
structure IsPayment (tx : TransactionPrefix) : Prop where
  notCoinbase : isCoinbase tx = false
  amountIn_lt : tx.amountIn < 2 ^ 64
  amountOut_le : tx.amountOut ≤ tx.amountIn

theorem isPayment_of_semantic {crypto : CryptoPrimitives} {tx : TransactionPrefix} {size : Nat}
    (h : validateTxSemantic crypto tx size = true) : IsPayment tx := by
  simp only [validateTxSemantic, checkMoneyOverflow, checkInputsOverflow, checkOutsOverflow,
    Bool.and_eq_true, decide_eq_true_eq, noOverflowFrom_iff, UInt64.toNat_zero, Nat.zero_add] at h
  obtain ⟨⟨⟨⟨⟨⟨⟨_, hsupported⟩, _⟩, ⟨_, hin⟩, hout⟩, hamounts⟩, _⟩, _⟩, _⟩ := h
  refine ⟨isCoinbase_of_supported hsupported, hin, ?_⟩
  calc tx.amountOut
    _ = (getOutsMoneyAmount tx).toNat := (WordSums.toNat_sum_of_lt hout).symm
    _ ≤ (getInputsMoneyAmount tx).2.toNat := UInt64.le_iff_toNat_le.mp hamounts
    _ ≤ (0 : UInt64).toNat + WordSums.total (tx.vin.map Txin.amount) := inputsMoneyFrom_le 0 tx.vin
    _ = tx.amountIn := Nat.zero_add _

namespace IsPayment

variable {tx : TransactionPrefix} (h : IsPayment tx)

include h

theorem amountOut_lt : tx.amountOut < 2 ^ 64 := lt_of_le_of_lt h.amountOut_le h.amountIn_lt

theorem getTxFee_toNat : (getTxFee tx).toNat = tx.amountIn - tx.amountOut := by
  have hin : (tx.vin.map Txin.amount).sum.toNat = tx.amountIn := WordSums.toNat_sum_of_lt h.amountIn_lt
  have hout : (getOutsMoneyAmount tx).toNat = tx.amountOut := WordSums.toNat_sum_of_lt h.amountOut_lt
  have hle : getOutsMoneyAmount tx ≤ (tx.vin.map Txin.amount).sum := by
    rw [UInt64.le_iff_toNat_le, hin, hout]
    exact h.amountOut_le
  rw [getTxFee, if_neg (by rw [h.notCoinbase]; exact Bool.false_ne_true), if_pos hle,
    UInt64.toNat_sub_of_le _ _ hle, hin, hout]

end IsPayment

/-! ## What the pool says that a transaction pays -/

/-- `add_tx` computes the fee of `get_tx_fee`. -/
theorem fee_of_checkTxAmounts {db : Db} {tx : Transaction} {fee : UInt64}
    (h : checkTxAmounts env db tx = .ok fee) : fee = getTxFee tx.toTransactionPrefix := by
  unfold checkTxAmounts at h
  simp only [require_bind_eq_ok, decide_eq_true_eq] at h
  obtain ⟨_, hsupported, hpositive, _, hamounts, h⟩ := h
  have hsum : (getInputsMoneyAmount tx.toTransactionPrefix).2 = (tx.vin.map Txin.amount).sum := by
    rw [getInputsMoneyAmount, inputsMoneyFrom_positive hpositive, UInt64.zero_add]
  rw [hsum] at hamounts h
  have hcoinbase := isCoinbase_of_supported hsupported
  rw [getTxFee, if_neg (by rw [hcoinbase]; exact Bool.false_ne_true), if_pos hamounts]
  exact (Except.ok.inj h).symm

/-- What a check of `add_tx` returns for the insertion has this fee. -/
def ReportsFee (fee : UInt64) (x : Except Failure (AddTxResult × Option (UInt64 × Hash × Nat))) :
    Prop :=
  ∀ result fee' used, x = .ok (result, some (fee', used)) → fee' = fee

theorem ReportsFee.bind {α : Type} {fee : UInt64} {x : Except Failure α}
    {f : α → Except Failure (AddTxResult × Option (UInt64 × Hash × Nat))}
    (h : ∀ a, x = .ok a → ReportsFee fee (f a)) : ReportsFee fee (x >>= f) := by
  intro result fee' used hrun
  rw [bind_eq_ok] at hrun
  obtain ⟨a, ha, hrun⟩ := hrun
  exact h a ha result fee' used hrun

theorem ReportsFee.ite {fee : UInt64} {condition : Bool}
    {x y : Except Failure (AddTxResult × Option (UInt64 × Hash × Nat))} (hx : ReportsFee fee x)
    (hy : ReportsFee fee y) : ReportsFee fee (if condition then x else y) := by
  cases condition with
  | true => exact hx
  | false => exact hy

theorem fee_of_checkNewTx (node : Node) (pool : TxMemoryPool) (now : Nat) (tx : Transaction) (id : Hash)
    (kept core : Bool) :
    ReportsFee (getTxFee tx.toTransactionPrefix) (checkNewTx env node pool now tx id kept core) := by
  have hnone : ∀ result, ReportsFee (getTxFee tx.toTransactionPrefix) (.ok (result, none)) := by
    intro result _ _ _ hrun
    cases hrun
  unfold checkNewTx
  apply ReportsFee.ite (hnone _)
  apply ReportsFee.bind
  intro fee hfee
  have hlast : ReportsFee (getTxFee tx.toTransactionPrefix)
      (checkInputsUnless env (kept || core) node now tx id >>= fun used => pure
        (AddTxResult.added used.isSome,
          some (fee, (used.getD (0, nullHash)).2, (used.getD (0, nullHash)).1))) := by
    apply ReportsFee.bind
    intro used _ _ _ _ hrun
    cases hrun
    exact fee_of_checkTxAmounts hfee
  -- only a transaction that comes from outside goes through these checks
  have hchecked : ReportsFee (getTxFee tx.toTransactionPrefix)
      (if !core && !kept then do
        require (!pool.haveTxKeyimgesAsSpent tx.toTransactionPrefix)
        if fee < env.config.txPoolMinFee &&
            !isValidContractFinalizationTx node.db tx.toTransactionPrefix then
          pure (.tooSmallFee, none)
        else do
          require (checkTxMultisigInsAndOuts env node.db pool tx.toTransactionPrefix true)
          let used ← checkInputsUnless env (kept || core) node now tx id
          pure (AddTxResult.added used.isSome,
            some (fee, (used.getD (0, nullHash)).2, (used.getD (0, nullHash)).1))
      else do
        let used ← checkInputsUnless env (kept || core) node now tx id
        pure (AddTxResult.added used.isSome,
          some (fee, (used.getD (0, nullHash)).2, (used.getD (0, nullHash)).1))) := by
    refine ReportsFee.ite (ReportsFee.bind fun _ _ => ReportsFee.ite (hnone _) ?_) hlast
    exact ReportsFee.bind fun _ _ => hlast
  refine ReportsFee.bind fun _ _ => ReportsFee.ite (ReportsFee.bind fun _ _ => ?_) ?_
  · exact hchecked
  · exact hchecked

namespace TxMemoryPool

/-- Each transaction of the pool with its fee. -/
def HasFees (pool : TxMemoryPool) : Prop :=
  ∀ id details, pool.transactions.lookup id = some details →
    details.fee = getTxFee details.tx.toTransactionPrefix

theorem HasFees.of_subset {pool pool' : TxMemoryPool} (h : pool.HasFees)
    (hsub : ∀ id details, pool'.transactions.lookup id = some details →
      pool.transactions.lookup id = some details) : pool'.HasFees :=
  fun id details hdetails => h id details (hsub id details hdetails)

theorem HasFees.run {pool : TxMemoryPool} (h : pool.HasFees) (action : PoolAction) :
    (action.run env pool).HasFees := by
  cases action with
  | addTx node now tx blobSize kept core =>
      have hfee := @fee_of_checkNewTx env node pool now tx (getTransactionHash env.crypto tx) kept core
      rw [PoolAction.run, poolAddTxFull]
      rcases hcheck : checkNewTx env node pool now tx (getTransactionHash env.crypto tx) kept core
        with failure | ⟨result, _ | ⟨fee, usedId, usedHeight⟩⟩
      · rw [Procedure.bind_of_error (by rw [Procedure.check_apply, hcheck])]
        exact h
      · rw [Procedure.bind_of_ok (by rw [Procedure.check_apply, hcheck])]
        exact h
      · rw [Procedure.bind_of_ok (by rw [Procedure.check_apply, hcheck])]
        intro id details hdetails
        obtain ⟨inserted, hinserted, htransactions⟩ : ∃ inserted : PoolTxDetails,
            inserted.fee = getTxFee inserted.tx.toTransactionPrefix ∧
              (pool.doInsertTransaction now tx (getTransactionHash env.crypto tx) blobSize kept fee
                usedId usedHeight).transactions =
                  pool.transactions.insert (getTransactionHash env.crypto tx) inserted :=
          ⟨_, hfee _ _ _ hcheck, insertAliasInfo_transactions _ _⟩
        change (pool.doInsertTransaction now tx (getTransactionHash env.crypto tx) blobSize kept fee
          usedId usedHeight).transactions.lookup id = some details at hdetails
        rw [htransactions, lookup_insert_ite] at hdetails
        split at hdetails
        · cases hdetails
          exact hinserted
        · exact h id details hdetails
  | takeTx id =>
      refine h.of_subset fun other details hdetails => ?_
      rw [PoolAction.run, TxMemoryPool.takeTx] at hdetails
      cases htaken : pool.transactions.lookup id with
      | none =>
          rw [htaken] at hdetails
          exact hdetails
      | some taken =>
          rw [htaken] at hdetails
          have htransactions : (onTxRemove id taken.tx.toTransactionPrefix
              { pool with transactions := pool.transactions.erase id }).transactions =
                pool.transactions.erase id := removeAliasInfo_transactions _ _
          dsimp only at hdetails
          rw [htransactions, lookup_erase_ite] at hdetails
          split at hdetails
          · cases hdetails
          · exact hdetails
  | removeStuckTransactions node now order =>
      refine h.of_subset fun other details hdetails => ?_
      rw [PoolAction.run, TxMemoryPool.removeStuckTransactions, lookup_removeAll] at hdetails
      split at hdetails
      · cases hdetails
      · exact hdetails
  | purgeTransactions => exact fun id details hdetails => by cases hdetails
  | clear => exact fun id details hdetails => by cases hdetails
  | _ => exact h

theorem hasFees_runPool (actions : List PoolAction) {pool : TxMemoryPool} (h : pool.HasFees) :
    (runPool env actions pool).HasFees := by
  induction actions generalizing pool with
  | nil => exact h
  | cons action rest ih => exact ih (h.run action)

end TxMemoryPool

/-- The pool has each transaction with the fee it pays. -/
def PooledFees (pool : FiniteStore Hash TxDetails) : Prop :=
  ∀ id details, pool.lookup id = some details →
    details.fee = getTxFee details.tx.toTransactionPrefix

/-- A node whose storage sees the transactions of a pool. -/
theorem pooledFees_of_pool {pool : TxMemoryPool} {node : Node} (h : pool.HasFees)
    (hsees : ∀ id, node.pool.lookup id =
      (pool.transactions.lookup id).map PoolTxDetails.toTxDetails) : PooledFees node.pool := by
  intro id details hdetails
  rw [hsees, Option.map_eq_some_iff] at hdetails
  obtain ⟨poolDetails, hpool, rfl⟩ := hdetails
  exact h id poolDetails hpool

/-- A block counts a transaction with the fee it pays, wherever it has the transaction from. -/
theorem fee_of_given {pool : FiniteStore Hash TxDetails} {onboard : TransactionsMap} {txId : Hash}
    {tx : Transaction} {blobSize : Nat} {fee : UInt64} (h : PooledFees pool)
    (hgiven : givenTransaction env pool onboard txId = some (tx, blobSize, fee)) :
    fee = getTxFee tx.toTransactionPrefix := by
  unfold givenTransaction getTxFromCache at hgiven
  cases hpool : pool.lookup txId with
  | some details =>
      rw [hpool] at hgiven
      cases hgiven
      exact h txId details hpool
  | none =>
      rw [hpool] at hgiven
      obtain ⟨tx', _, hfound⟩ := Option.map_eq_some_iff.mp hgiven
      cases hfound
      rfl

end Chinet
