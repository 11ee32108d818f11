import Chinet.Storage.Outputs

/-!
# The outputs of a transaction in the indexes

Pushing the outputs of a transaction appends the key and HTLC outputs to the
index of their amounts and inserts the multisig outputs under their ids.
`storeOutputs` says so in closed form, and popping the outputs from the last one
down gives back what was there before.
-/

namespace Chinet

open Procedure FiniteStore

variable {env : Env}

/-! ## Entries -/

/-- The entries in the index of `amount` for the outputs from number `i` on. -/
def indexEntries (txId : Hash) (amount : UInt64) : Nat → List TxOut → List GlobalOutputEntry
  | _, [] => []
  | i, out :: rest =>
      (if out.target.isIndexed = true ∧ out.amount = amount then [{ txId, outNo := i }] else []) ++
        indexEntries txId amount (i + 1) rest

/-- The multisig outputs from number `i` on, under their ids. -/
def multisigEntries (crypto : CryptoPrimitives) (tx : TransactionPrefix) (txId : Hash) :
    Nat → List TxOut → List (Hash × MsOutputEntry)
  | _, [] => []
  | i, out :: rest =>
      (if out.target.isIndexed then []
        else [(getMultisigOutId crypto tx i, { txId, outNo := i, spentHeight := 0 })]) ++
        multisigEntries crypto tx txId (i + 1) rest

/-- Where an entry of an index comes from. -/
theorem mem_indexEntries {txId : Hash} {amount : UInt64} {i : Nat} {outs : List TxOut}
    {g : GlobalOutputEntry} (h : g ∈ indexEntries txId amount i outs) :
    g.txId = txId ∧ i ≤ g.outNo ∧
      ∃ out, outs[g.outNo - i]? = some out ∧ out.target.isIndexed = true := by
  induction outs generalizing i with
  | nil => cases h
  | cons out rest ih =>
      rw [indexEntries, List.mem_append] at h
      rcases h with h | h
      · split at h
        · rename_i hout
          rw [List.mem_singleton.mp h]
          exact ⟨rfl, le_rfl, out, by simp, hout.1⟩
        · cases h
      · obtain ⟨htx, hle, out', hget, hindexed⟩ := ih h
        refine ⟨htx, by omega, out', ?_, hindexed⟩
        rw [show g.outNo - i = g.outNo - (i + 1) + 1 by omega, List.getElem?_cons_succ, hget]

theorem mem_multisigEntries {crypto : CryptoPrimitives} {tx : TransactionPrefix} {txId : Hash}
    {i : Nat} {outs : List TxOut} {pair : Hash × MsOutputEntry}
    (h : pair ∈ multisigEntries crypto tx txId i outs) :
    pair.2.txId = txId ∧ i ≤ pair.2.outNo ∧ pair.2.spentHeight = 0 ∧
      pair.1 = getMultisigOutId crypto tx pair.2.outNo ∧
      ∃ out, outs[pair.2.outNo - i]? = some out ∧ out.target.isIndexed = false := by
  induction outs generalizing i with
  | nil => cases h
  | cons out rest ih =>
      rw [multisigEntries, List.mem_append] at h
      rcases h with h | h
      · split at h
        · cases h
        · rename_i hout
          rw [List.mem_singleton.mp h]
          exact ⟨rfl, le_rfl, rfl, rfl, out, by simp, Bool.eq_false_iff.mpr hout⟩
      · obtain ⟨htx, hle, hunspent, hid, out', hget, hindexed⟩ := ih h
        refine ⟨htx, by omega, hunspent, hid, out', ?_, hindexed⟩
        rw [show pair.2.outNo - i = pair.2.outNo - (i + 1) + 1 by omega, List.getElem?_cons_succ,
          hget]

/-! ## Pushing -/

/-- The outputs from number `i` on are stored. -/
def storeOutputsFrom (crypto : CryptoPrimitives) (tx : TransactionPrefix) (txId : Hash) (i : Nat)
    (outs : List TxOut) (db : Db) : Db :=
  { db with
    outputs := fun amount => db.outputs amount ++ indexEntries txId amount i outs
    multisigOuts := insertPairs (multisigEntries crypto tx txId i outs) db.multisigOuts }

/-- What `push_transaction_to_global_outs_index` asks of the outputs. -/
structure OutputsStorable (env : Env) (db : Db) (tx : TransactionPrefix) (txId : Hash) (i : Nat)
    (outs : List TxOut) : Prop where
  fresh : ∀ pair ∈ multisigEntries env.crypto tx txId i outs,
    pair.1 ≠ nullHash ∧ db.multisigOuts.lookup pair.1 = none
  nodup : ((multisigEntries env.crypto tx txId i outs).map Prod.fst).Nodup
  htlcAllowed : ∀ out ∈ outs, out.target.isHtlc = true → env.isAfterHardfork3Zone db.size = true

theorem TxoutTarget.isIndexed_of_isHtlc {target : TxoutTarget} (h : target.isHtlc = true) :
    target.isIndexed = true := by
  cases target <;> first | rfl | cases h

theorem storeOutputsFrom_cons (crypto : CryptoPrimitives) (tx : TransactionPrefix) (txId : Hash)
    (i : Nat) (out : TxOut) (rest : List TxOut) (db : Db) :
    storeOutputsFrom crypto tx txId i (out :: rest) db =
      storeOutputsFrom crypto tx txId (i + 1) rest (storeOutputsFrom crypto tx txId i [out] db) := by
  have houtputs : ∀ amount, db.outputs amount ++ indexEntries txId amount i (out :: rest) =
      db.outputs amount ++ indexEntries txId amount i [out] ++
        indexEntries txId amount (i + 1) rest := by
    intro amount
    simp [indexEntries]
  have hms : insertPairs (multisigEntries crypto tx txId i (out :: rest)) db.multisigOuts =
      insertPairs (multisigEntries crypto tx txId (i + 1) rest)
        (insertPairs (multisigEntries crypto tx txId i [out]) db.multisigOuts) := by
    simp [multisigEntries, insertPairs, List.foldl_append]
  unfold storeOutputsFrom
  dsimp only
  rw [hms]
  simp only [houtputs]

theorem pushOutput_eq_store (crypto : CryptoPrimitives) (tx : TransactionPrefix) {txId : Hash}
    {i : Nat} {out : TxOut} {db : Db} (h : out.target.isIndexed = true) :
    pushOutput out.amount { txId, outNo := i } db = storeOutputsFrom crypto tx txId i [out] db := by
  have houtputs : Function.update db.outputs out.amount
      (db.outputs out.amount ++ [{ txId, outNo := i }]) =
      fun amount => db.outputs amount ++ indexEntries txId amount i [out] := by
    funext amount
    by_cases hamount : amount = out.amount
    · subst hamount
      simp [indexEntries, h]
    · have hne : out.amount ≠ amount := fun heq => hamount heq.symm
      simp [indexEntries, hamount, hne]
  simp only [pushOutput, storeOutputsFrom, houtputs, multisigEntries, h, if_true]
  rfl

theorem pushTransactionOutput_ok_iff {tx : Transaction} {txId : Hash} {i : Nat} {out : TxOut}
    {db db' : Db} :
    (∃ index, pushTransactionOutput env tx txId i out db = (.ok index, db')) ↔
      OutputsStorable env db tx.toTransactionPrefix txId i [out] ∧
        db' = storeOutputsFrom env.crypto tx.toTransactionPrefix txId i [out] db := by
  unfold pushTransactionOutput
  cases hindexed : out.target.isIndexed with
  | true =>
      have hentries : multisigEntries env.crypto tx.toTransactionPrefix txId i [out] = [] := by
        simp [multisigEntries, hindexed]
      simp only [if_true, modify_bind, check_bind_ok_iff, require_eq_ok, Bool.or_eq_true,
        Bool.not_eq_true', exists_const,
        pushOutput_eq_store env.crypto tx.toTransactionPrefix hindexed]
      constructor
      · rintro ⟨index, hzone, hrun⟩
        cases hrun
        refine ⟨⟨by simp [hentries], by simp [hentries], ?_⟩, rfl⟩
        intro o ho hhtlc
        rw [List.mem_singleton.mp ho] at hhtlc
        exact hzone.resolve_left (by simp [hhtlc])
      · rintro ⟨hstorable, rfl⟩
        refine ⟨_, ?_, rfl⟩
        cases hhtlc : out.target.isHtlc with
        | false => exact Or.inl rfl
        | true => exact Or.inr (hstorable.htlcAllowed out List.mem_cons_self hhtlc)
  | false =>
      have hentries : multisigEntries env.crypto tx.toTransactionPrefix txId i [out] =
          [(getMultisigOutId env.crypto tx.toTransactionPrefix i,
            { txId, outNo := i, spentHeight := 0 })] := by
        simp [multisigEntries, hindexed]
      have hstore : storeOutputsFrom env.crypto tx.toTransactionPrefix txId i [out] db = { db with
          multisigOuts := db.multisigOuts.insert (getMultisigOutId env.crypto tx.toTransactionPrefix i)
            { txId, outNo := i, spentHeight := 0 } } := by
        unfold storeOutputsFrom
        rw [hentries]
        simp [indexEntries, hindexed, insertPairs]
      simp only [Bool.false_eq_true, if_false, check_bind_ok_iff, require_bind_eq_ok, require_eq_ok,
        modify_bind, pure_apply, exists_const, Option.isNone_iff_eq_none, bne_iff_ne, hstore]
      constructor
      · rintro ⟨index, ⟨hne, hfresh⟩, hrun⟩
        cases hrun
        refine ⟨⟨?_, by rw [hentries]; simp, ?_⟩, rfl⟩
        · rw [hentries]
          rintro pair hpair
          rw [List.mem_singleton.mp hpair]
          exact ⟨hne, hfresh⟩
        · intro o ho hhtlc
          rw [List.mem_singleton.mp ho] at hhtlc
          rw [TxoutTarget.isIndexed_of_isHtlc hhtlc] at hindexed
          cases hindexed
      · rintro ⟨hstorable, rfl⟩
        have hpair := hstorable.fresh
          (getMultisigOutId env.crypto tx.toTransactionPrefix i, { txId, outNo := i, spentHeight := 0 })
          (by rw [hentries]; exact List.mem_cons_self)
        exact ⟨_, hpair, rfl⟩

theorem outputsStorable_cons {tx : TransactionPrefix} {txId : Hash} {i : Nat} {out : TxOut}
    {rest : List TxOut} {db : Db} :
    OutputsStorable env db tx txId i (out :: rest) ↔
      OutputsStorable env db tx txId i [out] ∧
        OutputsStorable env (storeOutputsFrom env.crypto tx txId i [out] db) tx txId (i + 1) rest := by
  have hentries : multisigEntries env.crypto tx txId i (out :: rest) =
      multisigEntries env.crypto tx txId i [out] ++ multisigEntries env.crypto tx txId (i + 1) rest := by
    simp [multisigEntries]
  constructor
  · rintro ⟨hfresh, hnodup, hzone⟩
    rw [hentries] at hfresh hnodup
    rw [List.map_append, List.nodup_append] at hnodup
    obtain ⟨hfirst, hrest, hdisjoint⟩ := hnodup
    refine ⟨⟨fun pair hpair => hfresh pair (List.mem_append_left _ hpair), hfirst,
      fun o ho => hzone o (by rw [List.mem_singleton.mp ho]; exact List.mem_cons_self)⟩,
      ⟨fun pair hpair => ?_, hrest, fun o ho => hzone o (List.mem_cons_of_mem out ho)⟩⟩
    obtain ⟨hne, hnone⟩ := hfresh pair (List.mem_append_right _ hpair)
    refine ⟨hne, ?_⟩
    rw [storeOutputsFrom, lookup_insertPairs_of_not_mem _ ?_]
    · exact hnone
    · intro hmem
      exact hdisjoint _ hmem _ (List.mem_map_of_mem hpair) rfl
  · rintro ⟨⟨hfresh, hnodup, hzone⟩, ⟨hfresh', hnodup', hzone'⟩⟩
    have hother : ∀ pair ∈ multisigEntries env.crypto tx txId (i + 1) rest,
        pair.1 ∉ (multisigEntries env.crypto tx txId i [out]).map Prod.fst := by
      intro pair hpair hmem
      obtain ⟨first, hfirst, heq⟩ := List.mem_map.mp hmem
      have hnone := (hfresh' pair hpair).2
      rw [← heq, storeOutputsFrom,
        lookup_insertPairs_of_mem _ hnodup (show (first.1, first.2) ∈ _ from hfirst)] at hnone
      cases hnone
    refine ⟨?_, ?_, ?_⟩
    · rw [hentries]
      intro pair hpair
      rcases List.mem_append.mp hpair with hpair | hpair
      · exact hfresh pair hpair
      · obtain ⟨hne, hnone⟩ := hfresh' pair hpair
        refine ⟨hne, ?_⟩
        rw [storeOutputsFrom, lookup_insertPairs_of_not_mem _ (hother pair hpair)] at hnone
        exact hnone
    · rw [hentries, List.map_append, List.nodup_append]
      refine ⟨hnodup, hnodup', ?_⟩
      rintro _ hfirst _ hsecond rfl
      obtain ⟨pair, hpair, rfl⟩ := List.mem_map.mp hsecond
      exact hother pair hpair hfirst
    · intro o ho
      rcases List.mem_cons.mp ho with rfl | ho
      · exact hzone o List.mem_cons_self
      · exact hzone' o ho

/-- `push_transaction_to_global_outs_index` in closed form. -/
theorem pushTransactionOutputs_ok_iff {tx : Transaction} {txId : Hash} {i : Nat} {outs : List TxOut}
    {db db' : Db} :
    (∃ indexes, pushTransactionOutputs env tx txId i outs db = (.ok indexes, db')) ↔
      OutputsStorable env db tx.toTransactionPrefix txId i outs ∧
        db' = storeOutputsFrom env.crypto tx.toTransactionPrefix txId i outs db := by
  induction outs generalizing i db with
  | nil =>
      constructor
      · rintro ⟨indexes, hrun⟩
        cases hrun
        refine ⟨⟨nofun, List.nodup_nil, nofun⟩, ?_⟩
        simp [storeOutputsFrom, indexEntries, multisigEntries, insertPairs]
      · rintro ⟨_, rfl⟩
        refine ⟨[], ?_⟩
        simp [pushTransactionOutputs, storeOutputsFrom, indexEntries, multisigEntries, insertPairs]
  | cons out rest ih =>
      rw [outputsStorable_cons, storeOutputsFrom_cons _ _ _ _ out rest db]
      constructor
      · rintro ⟨indexes, hrun⟩
        rw [pushTransactionOutputs, bind_ok_iff] at hrun
        obtain ⟨index, db₁, hfirst, hrun⟩ := hrun
        rw [bind_ok_iff] at hrun
        obtain ⟨tail, db₂, hrest, hrun⟩ := hrun
        cases hrun
        obtain ⟨hstorable, rfl⟩ := pushTransactionOutput_ok_iff.mp ⟨index, hfirst⟩
        obtain ⟨hstorable', rfl⟩ := ih.mp ⟨tail, hrest⟩
        exact ⟨⟨hstorable, hstorable'⟩, rfl⟩
      · rintro ⟨⟨hstorable, hstorable'⟩, rfl⟩
        obtain ⟨index, hfirst⟩ := pushTransactionOutput_ok_iff.mpr ⟨hstorable, rfl⟩
        obtain ⟨tail, hrest⟩ := ih.mpr ⟨hstorable', rfl⟩
        refine ⟨index :: tail, ?_⟩
        rw [pushTransactionOutputs, bind_of_ok hfirst, bind_of_ok hrest]
        rfl

/-! ## Popping -/

/-- One turn of the loop of `pop_transaction_from_global_index`, on an index that
ends with the output. -/
theorem popTransactionOutput_apply {tx : Transaction} {txId : Hash} {i : Nat} {out : TxOut} {db : Db}
    (base : UInt64 → List GlobalOutputEntry)
    (houtputs : ∀ amount, db.outputs amount = base amount ++ indexEntries txId amount i [out])
    (hms : ∀ pair ∈ multisigEntries env.crypto tx.toTransactionPrefix txId i [out],
      pair.1 ≠ nullHash ∧ (db.multisigOuts.lookup pair.1).isSome = true) :
    popTransactionOutput env tx txId i out db = (.ok (), { db with
      outputs := base
      multisigOuts := eraseMany ((multisigEntries env.crypto tx.toTransactionPrefix txId i
        [out]).map Prod.fst) db.multisigOuts }) := by
  unfold popTransactionOutput
  cases hindexed : out.target.isIndexed with
  | true =>
      have hentries : multisigEntries env.crypto tx.toTransactionPrefix txId i [out] = [] := by
        simp [multisigEntries, hindexed]
      have hlast : db.outputs out.amount = base out.amount ++ [{ txId, outNo := i }] := by
        rw [houtputs]
        simp [indexEntries, hindexed]
      have hdropped : Function.update db.outputs out.amount (db.outputs out.amount).dropLast =
          base := by
        funext amount
        by_cases hamount : amount = out.amount
        · subst hamount
          rw [Function.update_self, hlast, List.dropLast_concat]
        · have hne : out.amount ≠ amount := fun heq => hamount heq.symm
          rw [Function.update_of_ne hamount, houtputs]
          simp [indexEntries, hne]
      rw [if_pos rfl, hentries, check_bind_ok_iff]
      refine ⟨(), ?_, ?_⟩
      · rw [hlast, List.getLast?_concat]
        simp
      · rw [modify_apply, hdropped]
        rfl
  | false =>
      have hentries : multisigEntries env.crypto tx.toTransactionPrefix txId i [out] =
          [(getMultisigOutId env.crypto tx.toTransactionPrefix i,
            { txId, outNo := i, spentHeight := 0 })] := by
        simp [multisigEntries, hindexed]
      have hbase : db.outputs = base := by
        funext amount
        rw [houtputs]
        simp [indexEntries, hindexed]
      obtain ⟨hne, hsome⟩ := hms
        (getMultisigOutId env.crypto tx.toTransactionPrefix i, { txId, outNo := i, spentHeight := 0 })
        (by rw [hentries]; exact List.mem_cons_self)
      rw [if_neg (by simp), hentries, check_bind_ok_iff]
      refine ⟨(), by simp [hne, hsome], ?_⟩
      rw [modify_apply, ← hbase]
      rfl

/-- The outputs of a transaction are popped from the last one down. -/
theorem popTransactionOutputs_apply {tx : Transaction} {txId : Hash} {i : Nat} {outs : List TxOut}
    {db : Db} (base : UInt64 → List GlobalOutputEntry)
    (houtputs : ∀ amount, db.outputs amount = base amount ++ indexEntries txId amount i outs)
    (hms : ∀ pair ∈ multisigEntries env.crypto tx.toTransactionPrefix txId i outs,
      pair.1 ≠ nullHash ∧ (db.multisigOuts.lookup pair.1).isSome = true)
    (hnodup : ((multisigEntries env.crypto tx.toTransactionPrefix txId i outs).map Prod.fst).Nodup) :
    popTransactionOutputs env tx txId i outs db = (.ok (), { db with
      outputs := base
      multisigOuts := eraseMany ((multisigEntries env.crypto tx.toTransactionPrefix txId i
        outs).map Prod.fst) db.multisigOuts }) := by
  induction outs generalizing i db base with
  | nil =>
      have hbase : db.outputs = base := by
        funext amount
        rw [houtputs, indexEntries, List.append_nil]
      rw [popTransactionOutputs, pure_apply, ← hbase]
      rfl
  | cons out rest ih =>
      have hentries : multisigEntries env.crypto tx.toTransactionPrefix txId i (out :: rest) =
          multisigEntries env.crypto tx.toTransactionPrefix txId i [out] ++
            multisigEntries env.crypto tx.toTransactionPrefix txId (i + 1) rest := by
        simp [multisigEntries]
      rw [hentries] at hms hnodup ⊢
      rw [List.map_append] at hnodup ⊢
      have hrest := ih (i := i + 1) (fun amount => base amount ++ indexEntries txId amount i [out])
        (fun amount => by rw [houtputs]; simp [indexEntries])
        (fun pair hpair => hms pair (List.mem_append_right _ hpair)) (List.nodup_append.mp hnodup).2.1
      rw [popTransactionOutputs, bind_of_ok hrest]
      have hdisjoint := (List.nodup_append.mp hnodup).2.2
      rw [popTransactionOutput_apply base (fun amount => rfl) ?_, eraseMany_append,
        eraseMany_comm]
      intro pair hpair
      obtain ⟨hne, hsome⟩ := hms pair (List.mem_append_left _ hpair)
      refine ⟨hne, ?_⟩
      -- the multisig outputs popped before have other ids
      rw [lookup_eraseMany, if_neg]
      · exact hsome
      · intro hmem
        exact hdisjoint _ (List.mem_map_of_mem hpair) _ hmem rfl

end Chinet
