import Chinet.Alternative.HtlcExpiry
import Chinet.Pool.State

/-!
# What the indexes of the pool tell

The pool wants to know which of its transactions spend a key image and which alias
names and addresses are taken.  The index of key images is exact for the
`txin_to_key` inputs in every run, as an entry comes and goes with its images; it
never has the image of an HTLC input.  The alias sets go wrong where

* `purge_transactions` and `clear` forget them, and
* a transaction goes while another one that stays registers the same name or
  address; the checks of `add_tx` do not compare transactions from the core.

A run whose actions do none of these keeps all three exact.
-/

namespace Chinet

open FiniteStore

variable (env : Env)

/-! ## Runs of the pool -/

/-- The calls on the pool.  Each has the node as it is at that time. -/
inductive PoolAction
  | addTx (node : Node) (now : Nat) (tx : Transaction) (blobSize : Nat)
      (keptByBlock fromCore : Bool)
  | takeTx (id : Hash)
  | removeStuckTransactions (node : Node) (now : Nat) (order : List Hash)
  | purgeTransactions
  | clear
  | onBlockchainInc
  | onBlockchainDec
  | onFinalizeDbTransaction
  | addTransactionToBlackList (tx : Transaction)

/-- The notifications about blocks do nothing. -/
def PoolAction.run : PoolAction → TxMemoryPool → TxMemoryPool
  | .addTx node now tx blobSize keptByBlock fromCore, pool =>
      (poolAddTxFull env node now tx (getTransactionHash env.crypto tx) blobSize keptByBlock
        fromCore pool).2
  | .takeTx id, pool => (pool.takeTx id).2
  | .removeStuckTransactions node now order, pool => pool.removeStuckTransactions node now order
  | .purgeTransactions, pool => pool.purgeTransactions
  | .clear, pool => pool.clear
  | .onBlockchainInc, pool => pool
  | .onBlockchainDec, pool => pool
  | .onFinalizeDbTransaction, pool => pool.onFinalizeDbTransaction
  | .addTransactionToBlackList tx, pool => pool.addTransactionToBlackList env tx

def runPool (actions : List PoolAction) (pool : TxMemoryPool) : TxMemoryPool :=
  actions.foldl (fun pool action => action.run env pool) pool

/-! ## Exact indexes -/

def registeredNames (tx : TransactionPrefix) : List ByteString :=
  (registeredAlias? tx).toList.map ExtraAliasEntry.mAlias

def registeredAddresses (tx : TransactionPrefix) : List AccountPublicAddress :=
  (registeredAlias? tx).toList.map fun entry => entry.mAddress

/-- The alias sets have exactly what the transactions of the pool register. -/
structure AliasesIndexed (pool : TxMemoryPool) : Prop where
  names : ReverseIndex.Covers (fun details => registeredNames details.tx.toTransactionPrefix)
    pool.transactions pool.aliasNames
  addresses : ReverseIndex.Covers
    (fun details => registeredAddresses details.tx.toTransactionPrefix)
    pool.transactions pool.aliasAddresses

/-- `m_key_images` has for every key image exactly the transactions that spend it, and
the alias sets have exactly the registered names and addresses. -/
structure PoolIndexed (pool : TxMemoryPool) : Prop extends AliasesIndexed pool where
  keyImages : ReverseIndex.Exact (fun details => details.tx.toTransactionPrefix.keyImages)
    pool.transactions pool.keyImages

/-- What holds of the index of key images: it has the `txin_to_key` inputs. -/
def KeyInputsIndexed (pool : TxMemoryPool) : Prop :=
  ReverseIndex.Exact (fun details => toKeyImages details.tx.toTransactionPrefix) pool.transactions
    pool.keyImages

/-- Every key image of the transaction is that of a `txin_to_key`. -/
def OnlyKeyInputs (tx : TransactionPrefix) : Prop := ∀ k ∈ tx.keyImages, k ∈ toKeyImages tx

theorem toKeyImages_subset (tx : TransactionPrefix) : ∀ k ∈ toKeyImages tx, k ∈ tx.keyImages := by
  intro k hk
  rw [toKeyImages, List.mem_filterMap] at hk
  obtain ⟨input, hinput, hk⟩ := hk
  refine List.mem_filterMap.mpr ⟨input, hinput, ?_⟩
  cases input with
  | toKey input => exact hk
  | _ => cases hk

theorem onlyKeyInputs_of_eq {tx : TransactionPrefix} (h : toKeyImages tx = tx.keyImages) :
    OnlyKeyInputs tx := by
  intro k hk
  rwa [h]

/-- The index is exact for all key images iff no transaction of the pool has an HTLC
input with an image of its own. -/
theorem keyImages_exact_iff {pool : TxMemoryPool} (h : KeyInputsIndexed pool) :
    ReverseIndex.Exact (fun details => details.tx.toTransactionPrefix.keyImages) pool.transactions
        pool.keyImages ↔
      ∀ id details, pool.transactions.lookup id = some details →
        OnlyKeyInputs details.tx.toTransactionPrefix :=
  ReverseIndex.Exact.iff_keys h fun details => toKeyImages_subset details.tx.toTransactionPrefix

/-! ## An insertion -/

@[simp] theorem insertAliasInfo_transactions (tx : TransactionPrefix) (pool : TxMemoryPool) :
    (pool.insertAliasInfo tx).transactions = pool.transactions := by
  unfold TxMemoryPool.insertAliasInfo
  split <;> rfl

@[simp] theorem insertAliasInfo_keyImages (tx : TransactionPrefix) (pool : TxMemoryPool) :
    (pool.insertAliasInfo tx).keyImages = pool.keyImages := by
  unfold TxMemoryPool.insertAliasInfo
  split <;> rfl

@[simp] theorem insertAliasInfo_aliasNames (tx : TransactionPrefix) (pool : TxMemoryPool) :
    (pool.insertAliasInfo tx).aliasNames = pool.aliasNames ∪ (registeredNames tx).toFinset := by
  unfold TxMemoryPool.insertAliasInfo registeredNames
  cases registeredAlias? tx with
  | none => simp
  | some entry => simp

@[simp] theorem insertAliasInfo_aliasAddresses (tx : TransactionPrefix) (pool : TxMemoryPool) :
    (pool.insertAliasInfo tx).aliasAddresses =
      pool.aliasAddresses ∪ (registeredAddresses tx).toFinset := by
  unfold TxMemoryPool.insertAliasInfo registeredAddresses
  cases registeredAlias? tx with
  | none => simp
  | some entry => simp

/-! ## Removals -/

@[simp] theorem removeAliasInfo_transactions (tx : TransactionPrefix) (pool : TxMemoryPool) :
    (pool.removeAliasInfo tx).transactions = pool.transactions := by
  unfold TxMemoryPool.removeAliasInfo
  split <;> rfl

@[simp] theorem removeAliasInfo_keyImages (tx : TransactionPrefix) (pool : TxMemoryPool) :
    (pool.removeAliasInfo tx).keyImages = pool.keyImages := by
  unfold TxMemoryPool.removeAliasInfo
  split <;> rfl

@[simp] theorem removeAliasInfo_aliasNames (tx : TransactionPrefix) (pool : TxMemoryPool) :
    (pool.removeAliasInfo tx).aliasNames = pool.aliasNames \ (registeredNames tx).toFinset := by
  unfold TxMemoryPool.removeAliasInfo registeredNames
  cases registeredAlias? tx with
  | none => simp
  | some entry => simp [Finset.sdiff_singleton_eq_erase]

@[simp] theorem removeAliasInfo_aliasAddresses (tx : TransactionPrefix) (pool : TxMemoryPool) :
    (pool.removeAliasInfo tx).aliasAddresses =
      pool.aliasAddresses \ (registeredAddresses tx).toFinset := by
  unfold TxMemoryPool.removeAliasInfo registeredAddresses
  cases registeredAlias? tx with
  | none => simp
  | some entry => simp [Finset.sdiff_singleton_eq_erase]

@[simp] theorem removeStuck_transactions (pool : TxMemoryPool) (entry : Hash × Transaction) :
    (pool.removeStuck entry).transactions = pool.transactions.erase entry.1 := by
  simp [TxMemoryPool.removeStuck, TxMemoryPool.onTxRemove, TxMemoryPool.removeKeyImages]

@[simp] theorem removeStuck_keyImages (pool : TxMemoryPool) (entry : Hash × Transaction) :
    (pool.removeStuck entry).keyImages =
      ReverseIndex.removeAll entry.1 (toKeyImages entry.2.toTransactionPrefix) pool.keyImages := by
  simp [TxMemoryPool.removeStuck, TxMemoryPool.onTxRemove, TxMemoryPool.removeKeyImages]

@[simp] theorem removeStuck_aliasNames (pool : TxMemoryPool) (entry : Hash × Transaction) :
    (pool.removeStuck entry).aliasNames =
      pool.aliasNames \ (registeredNames entry.2.toTransactionPrefix).toFinset := by
  simp [TxMemoryPool.removeStuck, TxMemoryPool.onTxRemove, TxMemoryPool.removeKeyImages]

@[simp] theorem removeStuck_aliasAddresses (pool : TxMemoryPool) (entry : Hash × Transaction) :
    (pool.removeStuck entry).aliasAddresses =
      pool.aliasAddresses \ (registeredAddresses entry.2.toTransactionPrefix).toFinset := by
  simp [TxMemoryPool.removeStuck, TxMemoryPool.onTxRemove, TxMemoryPool.removeKeyImages]

/-- Entries to remove, each a transaction of the pool. -/
def Listed (pool : TxMemoryPool) (entries : List (Hash × Transaction)) : Prop :=
  ∀ entry ∈ entries, ∃ details, pool.transactions.lookup entry.1 = some details ∧
    details.tx = entry.2

theorem lookup_removeAll (entries : List (Hash × Transaction)) (pool : TxMemoryPool) (id : Hash) :
    (entries.foldl TxMemoryPool.removeStuck pool).transactions.lookup id =
      if id ∈ entries.map Prod.fst then none else pool.transactions.lookup id := by
  induction entries generalizing pool with
  | nil => simp
  | cons entry rest ih =>
      rw [List.foldl_cons, ih, removeStuck_transactions, lookup_erase_ite, List.map_cons]
      by_cases hrest : id ∈ rest.map Prod.fst
      · rw [if_pos hrest, if_pos (List.mem_cons_of_mem _ hrest)]
      · rw [if_neg hrest]
        by_cases hid : id = entry.1
        · rw [if_pos hid, if_pos (hid ▸ List.mem_cons_self)]
        · rw [if_neg hid, if_neg (by simp [hid, hrest])]

theorem aliasNames_removeAll (entries : List (Hash × Transaction)) (pool : TxMemoryPool) :
    (entries.foldl TxMemoryPool.removeStuck pool).aliasNames =
      pool.aliasNames \
        (entries.flatMap fun entry => registeredNames entry.2.toTransactionPrefix).toFinset := by
  induction entries generalizing pool with
  | nil => simp
  | cons entry rest ih =>
      rw [List.foldl_cons, ih, removeStuck_aliasNames, List.flatMap_cons, List.toFinset_append,
        sdiff_sdiff_left, Finset.sup_eq_union]

theorem aliasAddresses_removeAll (entries : List (Hash × Transaction)) (pool : TxMemoryPool) :
    (entries.foldl TxMemoryPool.removeStuck pool).aliasAddresses =
      pool.aliasAddresses \
        (entries.flatMap fun entry => registeredAddresses entry.2.toTransactionPrefix).toFinset := by
  induction entries generalizing pool with
  | nil => simp
  | cons entry rest ih =>
      rw [List.foldl_cons, ih, removeStuck_aliasAddresses, List.flatMap_cons, List.toFinset_append,
        sdiff_sdiff_left, Finset.sup_eq_union]

/-- The same transaction may be listed more than once; the second time its key images
are not found. -/
theorem keyInputsIndexed_removeAll {entries : List (Hash × Transaction)} {pool : TxMemoryPool}
    (hentries : ∀ entry ∈ entries, ∀ details, pool.transactions.lookup entry.1 = some details →
      details.tx = entry.2) (h : KeyInputsIndexed pool) :
    KeyInputsIndexed (entries.foldl TxMemoryPool.removeStuck pool) := by
  induction entries generalizing pool with
  | nil => exact h
  | cons entry rest ih =>
      rw [List.foldl_cons]
      refine ih (fun other hother details hdetails => ?_) ?_
      · rw [removeStuck_transactions, lookup_erase_ite] at hdetails
        split at hdetails
        · cases hdetails
        · exact hentries other (List.mem_cons_of_mem _ hother) details hdetails
      · rw [KeyInputsIndexed, removeStuck_transactions, removeStuck_keyImages]
        cases hlookup : pool.transactions.lookup entry.1 with
        | none =>
            rw [erase_of_lookup_eq_none _ _ hlookup]
            exact h.removeAll_of_absent hlookup _
        | some details =>
            have htx := hentries entry List.mem_cons_self details hlookup
            rw [← htx]
            exact h.erase hlookup

/-- A set of keys of the transactions stays exact under removals iff no transaction that
stays uses a removed key. -/
theorem covers_removeAll_iff {κ : Type} [DecidableEq κ] {keys : TransactionPrefix → List κ}
    {entries : List (Hash × Transaction)} {pool : TxMemoryPool} {used : Finset κ}
    (hlisted : Listed pool entries)
    (h : ReverseIndex.Covers (fun details : PoolTxDetails => keys details.tx.toTransactionPrefix)
      pool.transactions used) :
    ReverseIndex.Covers (fun details : PoolTxDetails => keys details.tx.toTransactionPrefix)
        (entries.foldl TxMemoryPool.removeStuck pool).transactions
        (used \ (entries.flatMap fun entry => keys entry.2.toTransactionPrefix).toFinset) ↔
      ∀ entry ∈ entries, ∀ id details, pool.transactions.lookup id = some details →
        id ∉ entries.map Prod.fst → ∀ k ∈ keys details.tx.toTransactionPrefix,
          k ∉ keys entry.2.toTransactionPrefix := by
  have hgone : ∀ k, k ∈ (entries.flatMap fun entry => keys entry.2.toTransactionPrefix).toFinset ↔
      ∃ id details, pool.transactions.lookup id = some details ∧
        (entries.foldl TxMemoryPool.removeStuck pool).transactions.lookup id = none ∧
        k ∈ keys details.tx.toTransactionPrefix := by
    intro k
    rw [List.mem_toFinset, List.mem_flatMap]
    constructor
    · rintro ⟨entry, hentry, hk⟩
      obtain ⟨details, hdetails, htx⟩ := hlisted entry hentry
      refine ⟨entry.1, details, hdetails, ?_, htx ▸ hk⟩
      rw [lookup_removeAll, if_pos (List.mem_map_of_mem hentry)]
    · rintro ⟨id, details, hdetails, hnone, hk⟩
      rw [lookup_removeAll] at hnone
      split at hnone
      · rename_i hmem
        obtain ⟨entry, hentry, rfl⟩ := List.mem_map.mp hmem
        obtain ⟨details', hdetails', htx⟩ := hlisted entry hentry
        rw [hdetails] at hdetails'
        cases hdetails'
        exact ⟨entry, hentry, htx ▸ hk⟩
      · rw [hdetails] at hnone
        cases hnone
  rw [h.restrict_iff (fun id details hdetails => ?_) hgone]
  · constructor
    · intro hall entry hentry id details hdetails hstays k hk hshared
      refine hall id details ?_ k hk (List.mem_toFinset.mpr (List.mem_flatMap.mpr
        ⟨entry, hentry, hshared⟩))
      rw [lookup_removeAll, if_neg hstays, hdetails]
    · intro hall id details hdetails k hk hmem
      rw [List.mem_toFinset, List.mem_flatMap] at hmem
      obtain ⟨entry, hentry, hshared⟩ := hmem
      rw [lookup_removeAll] at hdetails
      split at hdetails
      · cases hdetails
      · rename_i hstays
        exact hall entry hentry id details hdetails hstays k hk hshared
  · rw [lookup_removeAll] at hdetails
    split at hdetails
    · cases hdetails
    · exact hdetails

/-! ## Harmless actions -/

/-- The transaction that the action puts into the pool, if its checks pass. -/
def PoolAction.inserted (pool : TxMemoryPool) : PoolAction → Option Transaction
  | .addTx node now tx _ keptByBlock fromCore =>
      match checkNewTx env node pool now tx (getTransactionHash env.crypto tx) keptByBlock
        fromCore with
      | .ok (_, some _) => some tx
      | _ => none
  | _ => none

/-- The transactions that the action removes one by one. -/
def PoolAction.removed (pool : TxMemoryPool) : PoolAction → List (Hash × Transaction)
  | .takeTx id => (pool.transactions.lookup id).toList.map fun details => (id, details.tx)
  | .removeStuckTransactions node now order => stuckTransactions node now order pool
  | _ => []

/-- The action removes all transactions at once. -/
def PoolAction.removesAll : PoolAction → Bool
  | .purgeTransactions | .clear => true
  | _ => false

/-- An inserted transaction comes under a new id and has only key inputs; no removed
transaction shares its alias name or address with one that stays; and all transactions
go at once only when none registers an alias. -/
structure PoolAction.Harmless (pool : TxMemoryPool) (action : PoolAction) : Prop where
  sameId : ∀ tx, action.inserted env pool = some tx → ∀ details,
    pool.transactions.lookup (getTransactionHash env.crypto tx) = some details →
      details.tx.toTransactionPrefix = tx.toTransactionPrefix
  onlyKeyInputs : ∀ tx, action.inserted env pool = some tx → OnlyKeyInputs tx.toTransactionPrefix
  namesUnshared : ∀ entry ∈ action.removed pool, ∀ id details,
    pool.transactions.lookup id = some details → id ∉ (action.removed pool).map Prod.fst →
      ∀ name ∈ registeredNames details.tx.toTransactionPrefix,
        name ∉ registeredNames entry.2.toTransactionPrefix
  addressesUnshared : ∀ entry ∈ action.removed pool, ∀ id details,
    pool.transactions.lookup id = some details → id ∉ (action.removed pool).map Prod.fst →
      ∀ address ∈ registeredAddresses details.tx.toTransactionPrefix,
        address ∉ registeredAddresses entry.2.toTransactionPrefix
  nothingForgotten : action.removesAll = true → ∀ id details,
    pool.transactions.lookup id = some details →
      registeredAlias? details.tx.toTransactionPrefix = none

/-- Each action of the run is harmless where it comes. -/
def HarmlessRun : List PoolAction → TxMemoryPool → Prop
  | [], _ => True
  | action :: rest, pool => action.Harmless env pool ∧ HarmlessRun rest (action.run env pool)

/-! ### The steps -/

theorem listed_removed (pool : TxMemoryPool) (action : PoolAction) :
    Listed pool (action.removed pool) := by
  intro entry hentry
  cases action with
  | takeTx id =>
      obtain ⟨details, hdetails, rfl⟩ := List.mem_map.mp hentry
      exact ⟨details, Option.mem_toList.mp hdetails, rfl⟩
  | removeStuckTransactions node now order =>
      obtain ⟨id, _, hid⟩ := List.mem_flatMap.mp hentry
      cases hlookup : pool.transactions.lookup id with
      | none =>
          rw [hlookup] at hid
          cases hid
      | some details =>
          rw [hlookup] at hid
          dsimp only at hid
          split at hid
          · cases hid
          · obtain ⟨_, rfl⟩ := List.mem_replicate.mp hid
            exact ⟨details, hlookup, rfl⟩
  | _ => cases hentry

theorem lookup_of_listed {pool : TxMemoryPool} {entries : List (Hash × Transaction)}
    (h : Listed pool entries) : ∀ entry ∈ entries, ∀ details,
      pool.transactions.lookup entry.1 = some details → details.tx = entry.2 := by
  intro entry hentry details hdetails
  obtain ⟨details', hdetails', htx⟩ := h entry hentry
  rw [hdetails] at hdetails'
  cases hdetails'
  exact htx

/-- What the indexes depend on: the entries of the pool and the indexes themselves. -/
def TxMemoryPool.SameIndexes (pool pool' : TxMemoryPool) : Prop :=
  pool'.transactions = pool.transactions ∧ pool'.keyImages = pool.keyImages ∧
    pool'.aliasNames = pool.aliasNames ∧ pool'.aliasAddresses = pool.aliasAddresses

/-- An action inserts a transaction, removes the listed ones, removes all of them or
leaves the pool and its indexes as they are. -/
theorem run_cases (action : PoolAction) (pool : TxMemoryPool) :
    (∃ now tx blobSize kept fee usedId usedHeight, action.inserted env pool = some tx ∧
        action.run env pool = pool.doInsertTransaction now tx (getTransactionHash env.crypto tx)
          blobSize kept fee usedId usedHeight) ∨
      ((action.removed pool).foldl TxMemoryPool.removeStuck pool).SameIndexes
        (action.run env pool) ∨
      (action.removesAll = true ∧ (action.run env pool).transactions = ∅ ∧
        (action.run env pool).keyImages = ∅ ∧ (action.run env pool).aliasNames = pool.aliasNames ∧
        (action.run env pool).aliasAddresses = pool.aliasAddresses) := by
  cases action with
  | addTx node now tx blobSize kept core =>
      rw [PoolAction.run, poolAddTxFull]
      rcases hcheck : checkNewTx env node pool now tx (getTransactionHash env.crypto tx) kept core
        with failure | ⟨result, _ | ⟨fee, usedId, usedHeight⟩⟩
      · rw [Procedure.bind_of_error (by rw [Procedure.check_apply, hcheck])]
        exact .inr (.inl ⟨rfl, rfl, rfl, rfl⟩)
      · rw [Procedure.bind_of_ok (by rw [Procedure.check_apply, hcheck])]
        exact .inr (.inl ⟨rfl, rfl, rfl, rfl⟩)
      · rw [Procedure.bind_of_ok (by rw [Procedure.check_apply, hcheck])]
        have hinserted : PoolAction.inserted env pool (.addTx node now tx blobSize kept core) =
            some tx := by
          rw [PoolAction.inserted, hcheck]
        exact .inl ⟨now, tx, blobSize, kept, fee, usedId, usedHeight, hinserted, rfl⟩
  | takeTx id =>
      refine .inr (.inl ?_)
      rw [PoolAction.run, TxMemoryPool.takeTx, PoolAction.removed]
      cases pool.transactions.lookup id with
      | none => exact ⟨rfl, rfl, rfl, rfl⟩
      | some details => exact ⟨rfl, rfl, rfl, rfl⟩
  | removeStuckTransactions node now order => exact .inr (.inl ⟨rfl, rfl, rfl, rfl⟩)
  | purgeTransactions => exact .inr (.inr ⟨rfl, rfl, rfl, rfl, rfl⟩)
  | clear => exact .inr (.inr ⟨rfl, rfl, rfl, rfl, rfl⟩)
  | _ => exact .inr (.inl ⟨rfl, rfl, rfl, rfl⟩)

variable {env} {pool : TxMemoryPool} {action : PoolAction}

theorem doInsertTransaction_transactions (now : Nat) (tx : Transaction) (id : Hash)
    (blobSize : Nat) (kept : Bool) (fee : UInt64) (usedId : Hash) (usedHeight : Nat) :
    ∃ details : PoolTxDetails, details.tx = tx ∧
      (pool.doInsertTransaction now tx id blobSize kept fee usedId usedHeight).transactions =
        pool.transactions.insert id details := by
  refine ⟨_, ?_, insertAliasInfo_transactions _ _⟩
  rfl

/-- The images of key inputs are exact in every run. -/
theorem keyInputsIndexed_run (h : KeyInputsIndexed pool)
    (hsame : ∀ tx, action.inserted env pool = some tx → ∀ details,
      pool.transactions.lookup (getTransactionHash env.crypto tx) = some details →
        details.tx.toTransactionPrefix = tx.toTransactionPrefix) :
    KeyInputsIndexed (action.run env pool) := by
  obtain ⟨now, tx, blobSize, kept, fee, usedId, usedHeight, hinserted, hrun⟩ | hremoved |
    ⟨_, htransactions, hkeyImages, _⟩ := run_cases env action pool
  · rw [hrun]
    obtain ⟨details, rfl, htransactions⟩ := @doInsertTransaction_transactions pool now tx
      (getTransactionHash env.crypto tx) blobSize kept fee usedId usedHeight
    rw [KeyInputsIndexed, htransactions]
    rw [TxMemoryPool.doInsertTransaction, TxMemoryPool.onTxAdd, insertAliasInfo_keyImages]
    refine h.insert fun details' hdetails' k hk => ?_
    rw [← hsame _ hinserted details' hdetails']
    exact hk
  · have hall := keyInputsIndexed_removeAll (lookup_of_listed (listed_removed pool action)) h
    rw [KeyInputsIndexed, hremoved.1, hremoved.2.1]
    exact hall
  · rw [KeyInputsIndexed, htransactions, hkeyImages]
    exact .empty

theorem onlyKeyInputs_run
    (h : ∀ id details, pool.transactions.lookup id = some details →
      OnlyKeyInputs details.tx.toTransactionPrefix)
    (haction : ∀ tx, action.inserted env pool = some tx → OnlyKeyInputs tx.toTransactionPrefix) :
    ∀ id details, (action.run env pool).transactions.lookup id = some details →
      OnlyKeyInputs details.tx.toTransactionPrefix := by
  intro id details hdetails
  obtain ⟨now, tx, blobSize, kept, fee, usedId, usedHeight, hinserted, hrun⟩ | hremoved |
    ⟨_, htransactions, _⟩ := run_cases env action pool
  · obtain ⟨details', rfl, htransactions⟩ := @doInsertTransaction_transactions pool now tx
      (getTransactionHash env.crypto tx) blobSize kept fee usedId usedHeight
    rw [hrun, htransactions, lookup_insert_ite] at hdetails
    split at hdetails
    · cases hdetails
      exact haction _ hinserted
    · exact h id details hdetails
  · rw [hremoved.1, lookup_removeAll] at hdetails
    split at hdetails
    · cases hdetails
    · exact h id details hdetails
  · rw [htransactions] at hdetails
    cases hdetails

/-- A key set with its own insertion rule stays exact. -/
theorem aliasesIndexed_run (h : AliasesIndexed pool) (haction : action.Harmless env pool) :
    AliasesIndexed (action.run env pool) := by
  obtain ⟨now, tx, blobSize, kept, fee, usedId, usedHeight, hinserted, hrun⟩ |
    ⟨htransactions, _, hnames, haddresses⟩ | ⟨hforget, htransactions, _, hnames, haddresses⟩ :=
    run_cases env action pool
  · have hsame := haction.sameId tx hinserted
    obtain ⟨details, rfl, htransactions⟩ := @doInsertTransaction_transactions pool now tx
      (getTransactionHash env.crypto tx) blobSize kept fee usedId usedHeight
    constructor
    · rw [hrun, htransactions, TxMemoryPool.doInsertTransaction, TxMemoryPool.onTxAdd,
        insertAliasInfo_aliasNames]
      exact h.names.insert fun details' hdetails' name hname => hsame details' hdetails' ▸ hname
    · rw [hrun, htransactions, TxMemoryPool.doInsertTransaction, TxMemoryPool.onTxAdd,
        insertAliasInfo_aliasAddresses]
      exact h.addresses.insert fun details' hdetails' address haddress =>
        hsame details' hdetails' ▸ haddress
  · constructor
    · rw [htransactions, hnames, aliasNames_removeAll]
      exact (covers_removeAll_iff (listed_removed pool action) h.names).mpr haction.namesUnshared
    · rw [htransactions, haddresses, aliasAddresses_removeAll]
      exact (covers_removeAll_iff (listed_removed pool action) h.addresses).mpr
        haction.addressesUnshared
  · have hnone := haction.nothingForgotten hforget
    constructor
    · rw [htransactions, hnames]
      refine h.names.empty_of_none fun id details hdetails => ?_
      rw [registeredNames, hnone id details hdetails]
      rfl
    · rw [htransactions, haddresses]
      refine h.addresses.empty_of_none fun id details hdetails => ?_
      rw [registeredAddresses, hnone id details hdetails]
      rfl

/-! ### The runs -/

/-- What holds in a run of harmless actions. -/
structure Indexed (pool : TxMemoryPool) : Prop extends AliasesIndexed pool where
  keyInputs : KeyInputsIndexed pool
  onlyKeyInputs : ∀ id details, pool.transactions.lookup id = some details →
    OnlyKeyInputs details.tx.toTransactionPrefix

theorem Indexed.empty : Indexed TxMemoryPool.empty where
  names := .empty
  addresses := .empty
  keyInputs := .empty
  onlyKeyInputs := nofun

theorem Indexed.run (h : Indexed pool) (haction : action.Harmless env pool) :
    Indexed (action.run env pool) :=
  ⟨aliasesIndexed_run h.toAliasesIndexed haction, keyInputsIndexed_run h.keyInputs haction.sameId,
    onlyKeyInputs_run h.onlyKeyInputs haction.onlyKeyInputs⟩

theorem Indexed.poolIndexed (h : Indexed pool) : PoolIndexed pool :=
  ⟨h.toAliasesIndexed, (keyImages_exact_iff h.keyInputs).mpr h.onlyKeyInputs⟩

theorem Indexed.runPool {actions : List PoolAction} (h : Indexed pool)
    (hrun : HarmlessRun env actions pool) : Indexed (runPool env actions pool) := by
  induction actions generalizing pool with
  | nil => exact h
  | cons action rest ih => exact ih (h.run hrun.1) hrun.2

theorem HarmlessRun.take {actions : List PoolAction} (h : HarmlessRun env actions pool) (n : Nat) :
    HarmlessRun env (actions.take n) pool := by
  induction actions generalizing pool n with
  | nil => simpa using h
  | cons action rest ih =>
      cases n with
      | zero => trivial
      | succ n => exact ⟨h.1, ih h.2 n⟩

/-- In a run of harmless actions the indexes are exact at every time. -/
theorem pool_indexed {actions : List PoolAction} (hrun : HarmlessRun env actions .empty) (n : Nat) :
    PoolIndexed (runPool env (actions.take n) .empty) :=
  (Indexed.empty.runPool (hrun.take n)).poolIndexed

/-! ## A sample -/

theorem inserted_addTx {node : Node} {now : Nat} {tx tx' : Transaction} {blobSize : Nat}
    {kept core : Bool}
    (h : (PoolAction.addTx node now tx blobSize kept core).inserted env pool = some tx') :
    tx' = tx := by
  rw [PoolAction.inserted] at h
  split at h
  · exact (Option.some.inj h).symm
  · cases h

/-- The addition of a transaction with only key inputs, under an id that is new to the pool. -/
theorem harmless_addTx {node : Node} {now : Nat} {tx : Transaction} {blobSize : Nat}
    {kept core : Bool} (honly : OnlyKeyInputs tx.toTransactionPrefix)
    (hnew : (pool.transactions.lookup (getTransactionHash env.crypto tx)).isNone = true) :
    (PoolAction.addTx node now tx blobSize kept core).Harmless env pool := by
  refine ⟨?_, ?_, nofun, nofun, nofun⟩
  · intro tx' htx' details hdetails
    rw [inserted_addTx htx', Option.isNone_iff_eq_none.mp hnew] at hdetails
    cases hdetails
  · intro tx' htx'
    rw [inserted_addTx htx']
    exact honly

/-- The removal of a transaction without an alias. -/
theorem harmless_takeTx {id : Hash}
    (hnone : ∀ entry ∈ (PoolAction.takeTx id).removed pool,
      (registeredAlias? entry.2.toTransactionPrefix).isNone = true) :
    (PoolAction.takeTx id).Harmless env pool := by
  refine ⟨nofun, nofun, ?_, ?_, nofun⟩
  · intro entry hentry _ _ _ _ name _
    rw [registeredNames, Option.isNone_iff_eq_none.mp (hnone entry hentry)]
    exact List.not_mem_nil
  · intro entry hentry _ _ _ _ address _
    rw [registeredAddresses, Option.isNone_iff_eq_none.mp (hnone entry hentry)]
    exact List.not_mem_nil

/-- The multisig output of block 2 is spent. -/
def plainPoolTx : Transaction :=
  sampleMultisigTx 996 [sampleMultisigInput 0 2 currencyBlockReward]
    [sampleKeyOut (currencyBlockReward - txMinimumFee)]

/-- The HTLC output of block 11 is redeemed. -/
def redeemTx : Transaction where
  version := currentTransactionVersion
  extra := [.publicKey 998]
  vin := [.htlc {
    amount := currencyBlockReward
    keyOffsets := [.globalIndex 0]
    kImage := 41
    etcDetails := []
    hltcOrigin := [] }]
  vout := [sampleKeyOut (currencyBlockReward - txMinimumFee)]
  signatures := [[1]]
  attachment := []

/-- A transaction that registers the alias "a". -/
def aliasPoolTx : Transaction :=
  { plainPoolTx with extra := [.publicKey 996, .aliasEntry {
      mAddress := { spendPublicKey := 3, viewPublicKey := 4, flags := 0 }
      mTextComment := []
      mViewKey := []
      mSign := []
      mAlias := [97] }] }

/-- A transaction that spends the key image 42. -/
def keyPoolTx (pub : PublicKey) : Transaction :=
  { plainPoolTx with
    extra := [.publicKey pub]
    vin := [.toKey {
      amount := currencyBlockReward
      keyOffsets := [.globalIndex 0]
      kImage := 42
      etcDetails := [] }] }

/-- Two transactions with one key image and one with an alias come in blocks, and one of the two is
taken back. -/
def plainPoolRun : List PoolAction := [
  .addTx (htlcNode 5) 100000 (keyPoolTx 994) 100 true true,
  .addTx (htlcNode 5) 100000 (keyPoolTx 995) 100 true true,
  .addTx (htlcNode 5) 100000 aliasPoolTx 100 true true,
  .onBlockchainInc,
  .takeTx (getTransactionHash sampleCrypto (keyPoolTx 994))]

theorem plainPoolRun_indexed :
    PoolIndexed (runPool htlcEnv (plainPoolRun.take 5) .empty) ∧
      (runPool htlcEnv (plainPoolRun.take 5) .empty).keyImages.lookup 42 =
        some {getTransactionHash sampleCrypto (keyPoolTx 995)} ∧
      (runPool htlcEnv (plainPoolRun.take 5) .empty).aliasNames = {[97]} := by
  have hkey (pub : PublicKey) : OnlyKeyInputs (keyPoolTx pub).toTransactionPrefix :=
    onlyKeyInputs_of_eq rfl
  have hrun : HarmlessRun htlcEnv plainPoolRun .empty := by
    refine ⟨harmless_addTx (hkey 994) ?_, harmless_addTx (hkey 995) ?_,
      harmless_addTx (onlyKeyInputs_of_eq (by decide)) ?_, ⟨nofun, nofun, nofun, nofun, nofun⟩,
      harmless_takeTx ?_, trivial⟩ <;> decide +kernel
  exact ⟨pool_indexed hrun 5, by decide +kernel, by decide +kernel⟩

theorem not_poolIndexed_of_unindexed {id : Hash} {k : KeyImage} {tx : Transaction}
    (hlookup : (pool.transactions.lookup id).map (·.tx) = some tx)
    (hk : k ∈ tx.toTransactionPrefix.keyImages) (hnone : pool.keyImages.lookup k = none) :
    ¬ PoolIndexed pool := by
  intro h
  obtain ⟨details, hdetails, rfl⟩ := Option.map_eq_some_iff.mp hlookup
  have hmem := (h.keyImages.mem k id).mpr ⟨details, hdetails, hk⟩
  rw [ReverseIndex.users, hnone] at hmem
  cases hmem

theorem not_poolIndexed_of_phantom {name : ByteString} (hempty : pool.transactions = ∅)
    (hname : name ∈ pool.aliasNames) : ¬ PoolIndexed pool := by
  intro h
  obtain ⟨id, details, hdetails, _⟩ := (h.names name).mp hname
  rw [hempty] at hdetails
  cases hdetails

/-- The pool accepts `redeemTx` with all its checks and does not index its key image;
and the name of `aliasPoolTx` stays taken after `clear`. -/
theorem pool_indexes_fail :
    Reachable htlcEnv (htlcNode 5).db ∧
      ¬ PoolIndexed (runPool htlcEnv
        [.addTx (htlcNode 5) 100000 redeemTx 100 false false] .empty) ∧
      ¬ PoolIndexed (runPool htlcEnv
        [.addTx (htlcNode 5) 100000 aliasPoolTx 100 true true, .clear] .empty) := by
  have hrun : (addBlocks htlcEnv 100000 (htlcTxs 5) (htlcBlocks 5) emptyNode).isSome = true := by
    decide +kernel
  refine ⟨reachable_of_isSome_addBlocks rfl hrun, ?_, ?_⟩
  · refine @not_poolIndexed_of_unindexed _ (getTransactionHash sampleCrypto redeemTx) 41 redeemTx
      ?_ ?_ ?_ <;> decide +kernel
  · refine @not_poolIndexed_of_phantom _ [97] rfl ?_
    decide +kernel

end Chinet
