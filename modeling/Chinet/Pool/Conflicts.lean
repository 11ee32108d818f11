import Chinet.Storage.Payments

/-!
# Conflicts in the pool

`add_tx` refuses a transaction from outside that spends the key image of a pooled one or claims
one of its multisig ids.  A transaction of a block or from the core goes in unasked.  So of two
pooled transactions in conflict one came in that way, whatever was added, taken or removed between.
-/

namespace Chinet

open FiniteStore

variable (env : Env)

/-- The multisig ids that a transaction spends or creates. -/
def multisigClaims (tx : TransactionPrefix) : List Hash := tx.multisigIds ++ multisigOutIds env tx

/-- What the pool looks at: key images of `txin_to_key` inputs and multisig ids. -/
def Conflict (tx tx' : TransactionPrefix) : Prop :=
  (∃ k ∈ toKeyImages tx, k ∈ toKeyImages tx') ∨
    ∃ id ∈ multisigClaims env tx, id ∈ multisigClaims env tx'

/-- The transaction that the action wants to add. -/
def PoolAction.added? : PoolAction → Option Transaction
  | .addTx _ _ tx _ _ _ => some tx
  | _ => none

/-- It comes kept by a block or from the core. -/
def PoolAction.isTrusted : PoolAction → Bool
  | .addTx _ _ _ _ keptByBlock fromCore => keptByBlock || fromCore
  | _ => false

/-- The pooled transaction with this id went in kept by a block or from the core, and has stayed
since. -/
def TrustedInsertion (actions : List PoolAction) (id : Hash) : Prop :=
  ∃ before action after, actions = before ++ action :: after ∧ action.isTrusted = true ∧
    (action.inserted env (runPool env before .empty)).map (getTransactionHash env.crypto) = some id ∧
    ∀ during, during <+: after →
      ((runPool env (before ++ action :: during) .empty).transactions.lookup id).isSome

/-- Equal hashes of added transactions mean equal transactions. -/
def IdsDistinguish (actions : List PoolAction) : Prop :=
  ∀ tx ∈ actions.filterMap PoolAction.added?, ∀ tx' ∈ actions.filterMap PoolAction.added?,
    getTransactionHash env.crypto tx = getTransactionHash env.crypto tx' →
      tx.toTransactionPrefix = tx'.toTransactionPrefix

/-- Each transaction of the pool has its own hash as id and the fee it pays, and of two in conflict
one came in unasked in the run `actions`. -/
structure ConflictsTrusted (actions : List PoolAction) (pool : TxMemoryPool) : Prop where
  filed : ∀ id details, pool.transactions.lookup id = some details →
    getTransactionHash env.crypto details.tx = id
  fees : pool.HasFees
  trust : ∀ id details, pool.transactions.lookup id = some details →
    ∀ id' details', pool.transactions.lookup id' = some details' → id ≠ id' →
      Conflict env details.tx.toTransactionPrefix details'.tx.toTransactionPrefix →
        TrustedInsertion env actions id ∨ TrustedInsertion env actions id'

/-- The invariant of the run: the checks rely on the index of key images. -/
structure Settled (actions : List PoolAction) (pool : TxMemoryPool) : Prop
    extends ConflictsTrusted env actions pool where
  added : ∀ id details, pool.transactions.lookup id = some details →
    details.tx ∈ actions.filterMap PoolAction.added?
  keyInputs : KeyInputsIndexed pool

variable {env} {actions : List PoolAction} {pool : TxMemoryPool} {action : PoolAction}

theorem Conflict.symm {tx tx' : TransactionPrefix} (h : Conflict env tx tx') :
    Conflict env tx' tx := by
  obtain ⟨k, hk, hk'⟩ | ⟨id, hid, hid'⟩ := h
  · exact .inl ⟨k, hk', hk⟩
  · exact .inr ⟨id, hid', hid⟩

/-! ## The checks -/

theorem checks_of_checkNewTx {node : Node} {now : Nat} {tx : Transaction} {id : Hash}
    {result : AddTxResult} {found : UInt64 × Hash × Nat}
    (h : checkNewTx env node pool now tx id false false = .ok (result, some found)) :
    pool.haveTxKeyimgesAsSpent tx.toTransactionPrefix = false ∧
      checkTxMultisigInsAndOuts env node.db pool tx.toTransactionPrefix true = true := by
  rw [checkNewTx] at h
  split at h
  · cases h
  · obtain ⟨fee, _, h⟩ := bind_eq_ok.mp h
    obtain ⟨_, h⟩ := require_bind_eq_ok.mp h
    obtain ⟨_, _, h⟩ := bind_eq_ok.mp h
    obtain ⟨hspent, h⟩ := require_bind_eq_ok.mp h
    split at h
    · cases h
    · exact ⟨Bool.not_eq_true' _ |>.mp hspent, (require_bind_eq_ok.mp h).1⟩

/-- A transaction from outside passes the checks only without a conflict. -/
theorem no_conflict_of_checks {db : Db} {tx : TransactionPrefix} (hindexed : KeyInputsIndexed pool)
    (hspent : pool.haveTxKeyimgesAsSpent tx = false)
    (hmultisig : checkTxMultisigInsAndOuts env db pool tx true = true) {id : Hash}
    {details : PoolTxDetails} (hdetails : pool.transactions.lookup id = some details) :
    ¬ Conflict env tx details.tx.toTransactionPrefix := by
  rintro (⟨k, hk, hk'⟩ | ⟨claim, hclaim, hclaim'⟩)
  · have hmem := (hindexed.mem k id).mpr ⟨details, hdetails, hk'⟩
    have hnone := List.any_eq_false.mp hspent k hk
    rw [TxMemoryPool.haveTxKeyimgAsSpent, Option.not_isSome_iff_eq_none] at hnone
    rw [ReverseIndex.users, hnone] at hmem
    cases hmem
  · have hpooled : (pool.transactions.any fun _ details =>
        doesTxHaveGivenMultisigId env details.tx.toTransactionPrefix claim) = true := by
      refine any_of_lookup hdetails ?_
      simpa [doesTxHaveGivenMultisigId, multisigClaims] using hclaim'
    simp only [checkTxMultisigInsAndOuts, Bool.true_and, Bool.and_eq_true, List.all_eq_true,
      Bool.not_eq_true'] at hmultisig
    obtain hin | hout := List.mem_append.mp hclaim
    · exact absurd hpooled (Bool.eq_false_iff.mp (hmultisig.1 claim hin))
    · exact absurd hpooled (Bool.eq_false_iff.mp (hmultisig.2 claim hout).2)

/-! ## Runs -/

theorem runPool_concat (actions : List PoolAction) (action : PoolAction) (pool : TxMemoryPool) :
    runPool env (actions ++ [action]) pool = action.run env (runPool env actions pool) := by
  rw [runPool, runPool, List.foldl_append]
  rfl

/-- A trusted insertion is one as long as the transaction stays. -/
theorem TrustedInsertion.concat {id : Hash} (h : TrustedInsertion env actions id)
    (hstays : ((action.run env (runPool env actions .empty)).transactions.lookup id).isSome) :
    TrustedInsertion env (actions ++ [action]) id := by
  obtain ⟨before, first, after, rfl, htrusted, hinserted, hstayed⟩ := h
  refine ⟨before, first, after ++ [action], by simp, htrusted, hinserted, fun during hduring => ?_⟩
  rcases List.prefix_concat_iff.mp hduring with rfl | hprefix
  · rw [← List.cons_append, ← List.append_assoc, runPool_concat]
    exact hstays
  · exact hstayed during hprefix

theorem trustedInsertion_of_inserted {tx : Transaction} (htrusted : action.isTrusted = true)
    (hinserted : action.inserted env (runPool env actions .empty) = some tx)
    (hstays : ((action.run env (runPool env actions .empty)).transactions.lookup
      (getTransactionHash env.crypto tx)).isSome) :
    TrustedInsertion env (actions ++ [action]) (getTransactionHash env.crypto tx) := by
  refine ⟨actions, action, [], rfl, htrusted, by rw [hinserted]; rfl, fun during hduring => ?_⟩
  rw [List.prefix_nil.mp hduring, runPool_concat]
  exact hstays

/-- After an action that only takes transactions out, what holds still holds. -/
theorem Settled.of_subset (h : Settled env actions (runPool env actions .empty))
    (hindexed : KeyInputsIndexed (action.run env (runPool env actions .empty)))
    (hsub : ∀ id details,
      (action.run env (runPool env actions .empty)).transactions.lookup id = some details →
        (runPool env actions .empty).transactions.lookup id = some details) :
    Settled env (actions ++ [action]) (action.run env (runPool env actions .empty)) where
  filed id details hdetails := h.filed id details (hsub id details hdetails)
  fees := h.fees.of_subset hsub
  trust id details hdetails id' details' hdetails' hne hconflict :=
    (h.trust id details (hsub id details hdetails) id' details' (hsub id' details' hdetails') hne
      hconflict).imp (fun htrust => htrust.concat (Option.isSome_of_eq_some hdetails))
      (fun htrust => htrust.concat (Option.isSome_of_eq_some hdetails'))
  added id details hdetails := by
    rw [List.filterMap_append]
    exact List.mem_append_left _ (h.added id details (hsub id details hdetails))
  keyInputs := hindexed

theorem added?_of_inserted {tx : Transaction}
    (h : action.inserted env pool = some tx) : action.added? = some tx := by
  cases action with
  | addTx node now tx' blobSize kept core =>
      rw [inserted_addTx h]
      rfl
  | _ => cases h

/-- A transaction goes in trusted or without a conflict. -/
theorem trusted_or_no_conflict {tx : Transaction} (hindexed : KeyInputsIndexed pool)
    (h : action.inserted env pool = some tx) :
    action.isTrusted = true ∨ ∀ id details, pool.transactions.lookup id = some details →
      ¬ Conflict env tx.toTransactionPrefix details.tx.toTransactionPrefix := by
  cases action with
  | addTx node now tx' blobSize kept core =>
      obtain rfl := inserted_addTx h
      cases htrusted : kept || core with
      | true => exact .inl htrusted
      | false =>
          obtain ⟨rfl, rfl⟩ := Bool.or_eq_false_iff.mp htrusted
          rw [PoolAction.inserted] at h
          split at h
          · rename_i hcheck
            obtain ⟨hspent, hmultisig⟩ := checks_of_checkNewTx hcheck
            exact .inr fun id details => no_conflict_of_checks hindexed hspent hmultisig
          · cases h
  | _ => cases h

theorem Settled.run (hids : IdsDistinguish env (actions ++ [action]))
    (h : Settled env actions (runPool env actions .empty)) :
    Settled env (actions ++ [action]) (action.run env (runPool env actions .empty)) := by
  have hadded : ∀ tx, action.inserted env (runPool env actions .empty) = some tx →
      tx ∈ (actions ++ [action]).filterMap PoolAction.added? := fun tx hinserted =>
    List.mem_filterMap.mpr ⟨action, by simp, added?_of_inserted hinserted⟩
  have hkept : ∀ id details, (runPool env actions .empty).transactions.lookup id = some details →
      details.tx ∈ (actions ++ [action]).filterMap PoolAction.added? := by
    intro id details hdetails
    rw [List.filterMap_append]
    exact List.mem_append_left _ (h.added id details hdetails)
  have hindexed : KeyInputsIndexed (action.run env (runPool env actions .empty)) := by
    refine keyInputsIndexed_run h.keyInputs fun tx hinserted details hdetails => ?_
    exact hids details.tx (hkept _ details hdetails) tx (hadded tx hinserted)
      (h.filed _ details hdetails)
  obtain ⟨now, tx, blobSize, kept, fee, usedId, usedHeight, hinserted, hrun⟩ | hremoved |
    ⟨_, htransactions, _⟩ := run_cases env action (runPool env actions .empty)
  · obtain ⟨inserted, rfl, htransactions⟩ := @doInsertTransaction_transactions
      (runPool env actions .empty) now tx (getTransactionHash env.crypto tx) blobSize kept fee usedId
      usedHeight
    -- the new transaction is trusted or in conflict with none of the others
    have hnew : ∀ id details,
        (runPool env actions .empty).transactions.lookup id = some details →
        Conflict env inserted.tx.toTransactionPrefix details.tx.toTransactionPrefix →
          TrustedInsertion env (actions ++ [action]) (getTransactionHash env.crypto inserted.tx) := by
      intro id details hdetails hconflict
      obtain htrust | hnone := trusted_or_no_conflict h.keyInputs hinserted
      · refine trustedInsertion_of_inserted htrust hinserted ?_
        rw [hrun, htransactions, lookup_insert_ite, if_pos rfl]
        rfl
      · exact absurd hconflict (hnone id details hdetails)
    have hfiled : ∀ id details,
        (action.run env (runPool env actions .empty)).transactions.lookup id = some details →
        getTransactionHash env.crypto details.tx = id ∧
          details.tx ∈ (actions ++ [action]).filterMap PoolAction.added? := by
      intro id details hdetails
      rw [hrun, htransactions, lookup_insert_ite] at hdetails
      split at hdetails
      · rename_i hid
        cases hdetails
        exact ⟨hid.symm, hadded _ hinserted⟩
      · exact ⟨h.filed id details hdetails, hkept id details hdetails⟩
    refine ⟨⟨fun id details hdetails => (hfiled id details hdetails).1, h.fees.run action, ?_⟩,
      fun id details hdetails => (hfiled id details hdetails).2, hindexed⟩
    intro id details hdetails id' details' hdetails' hne hconflict
    have hstays := Option.isSome_of_eq_some hdetails
    have hstays' := Option.isSome_of_eq_some hdetails'
    rw [hrun, htransactions, lookup_insert_ite] at hdetails hdetails'
    split at hdetails
    · rename_i hid
      rw [if_neg (fun hid' => hne (hid.trans hid'.symm))] at hdetails'
      cases hdetails
      exact .inl (hid ▸ hnew id' details' hdetails' hconflict)
    · split at hdetails'
      · rename_i hid'
        cases hdetails'
        exact .inr (hid' ▸ hnew id details hdetails hconflict.symm)
      · exact (h.trust id details hdetails id' details' hdetails' hne hconflict).imp
          (fun htrust => htrust.concat hstays) (fun htrust => htrust.concat hstays')
  · refine h.of_subset hindexed fun id details hdetails => ?_
    rw [hremoved.1, lookup_removeAll] at hdetails
    split at hdetails
    · cases hdetails
    · exact hdetails
  · refine h.of_subset hindexed fun id details hdetails => ?_
    rw [htransactions] at hdetails
    cases hdetails

theorem settled_runPool (hids : IdsDistinguish env actions) :
    Settled env actions (runPool env actions .empty) := by
  induction actions using List.reverseRecOn with
  | nil => exact ⟨⟨nofun, (fun _ _ h => by cases h), nofun⟩, nofun, .empty⟩
  | append_singleton actions action ih =>
      have hfewer : IdsDistinguish env actions := by
        intro tx htx tx' htx'
        refine hids tx ?_ tx' ?_ <;> rw [List.filterMap_append]
        · exact List.mem_append_left _ htx
        · exact List.mem_append_left _ htx'
      rw [runPool_concat]
      exact (ih hfewer).run hids

/-- Conflicts need trust, whatever is added, taken or removed. -/
theorem conflicts_need_trust (hids : IdsDistinguish env actions) :
    ConflictsTrusted env actions (runPool env actions .empty) :=
  (settled_runPool hids).toConflictsTrusted

/-- `plainPoolTx` from outside, and a block that spends the same multisig output. -/
def conflictRun : List PoolAction := [
  .addTx (htlcNode 5) 100000 plainPoolTx 100 false false,
  .onBlockchainInc,
  .addTx (htlcNode 5) 100001 { plainPoolTx with extra := [.publicKey 994] } 100 true false]

theorem conflicts_need_trust_sample :
    (runPool htlcEnv conflictRun .empty).transactions.keys.card = 2 ∧
      ConflictsTrusted htlcEnv conflictRun (runPool htlcEnv conflictRun .empty) := by
  refine ⟨by decide +kernel, conflicts_need_trust ?_⟩
  unfold IdsDistinguish
  decide +kernel

end Chinet
