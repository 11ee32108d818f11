import Chinet.Storage.AliasIndex
import Chinet.Storage.Indexing
import Chinet.Storage.Spending
import Chinet.Storage.Frame

/-!
# The ledger entry of a transaction

Adding a transaction of a block has one effect on the database, `applyEntry`:
the alias, the marks of the inputs, the outputs and the entry itself.  Purging
the transaction takes it back, up to the values of spent flags: the outputs that
the transaction marked become unspent, whatever they were before.
-/

namespace Chinet

open Procedure FiniteStore

variable {env : Env}

/-! ## Entries and their effect -/

/-- A transaction of the main chain. -/
structure LedgerEntry where
  txId : Hash
  tx : Transaction
  keeperBlockHeight : Nat
  globalOutputIndexes : List Nat

def LedgerEntry.chainEntry (e : LedgerEntry) : TransactionChainEntry where
  tx := e.tx
  keeperBlockHeight := e.keeperBlockHeight
  globalOutputIndexes := e.globalOutputIndexes
  spentFlags := List.replicate e.tx.vout.length false

/-- The ids of the multisig outputs of an entry. -/
def LedgerEntry.multisigOutIds (crypto : CryptoPrimitives) (e : LedgerEntry) : List Hash :=
  (multisigEntries crypto e.tx.toTransactionPrefix e.txId 0 e.tx.vout).map Prod.fst

def insertEntry (e : LedgerEntry) (db : Db) : Db :=
  { db with transactions := db.transactions.insert e.txId e.chainEntry }

/-- What `add_transaction_from_block` does to the database. -/
def applyEntry (env : Env) (e : LedgerEntry) (db : Db) : Db :=
  insertEntry e (storeOutputsFrom env.crypto e.tx.toTransactionPrefix e.txId 0 e.tx.vout
    (markInputs (some e.keeperBlockHeight) e.tx.vin (putAlias env e.tx db)))

/-- What `add_transaction_from_block` asks of the database. -/
structure EntryAddable (env : Env) (db : Db) (e : LedgerEntry) : Prop where
  extra : AliasPuttable env e.tx db
  inputs : InputsAddable env db e.tx.vin
  fresh : db.transactions.lookup e.txId = none
  outputs : OutputsStorable env db e.tx.toTransactionPrefix e.txId 0 e.tx.vout

section

variable (env : Env) (e : LedgerEntry) (db : Db)

@[simp] theorem applyEntry_spentKeys : (applyEntry env e db).spentKeys =
    insertMany e.tx.keyImages e.keeperBlockHeight db.spentKeys := by
  unfold applyEntry
  rw [putAlias_eq]
  rfl

@[simp] theorem applyEntry_outputs (amount : UInt64) : (applyEntry env e db).outputs amount =
    db.outputs amount ++ indexEntries e.txId amount 0 e.tx.vout := by
  unfold applyEntry
  rw [putAlias_eq]
  rfl

@[simp] theorem applyEntry_aliases :
    (applyEntry env e db).aliases = (putAlias env e.tx db).aliases := rfl

@[simp] theorem applyEntry_addrToAlias :
    (applyEntry env e db).addrToAlias = (putAlias env e.tx db).addrToAlias := rfl

@[simp] theorem applyEntry_chainView : (applyEntry env e db).chainView = db.chainView := by
  unfold applyEntry
  rw [putAlias_eq]
  rfl

theorem applyEntry_multisigOuts : (applyEntry env e db).multisigOuts =
    insertPairs (multisigEntries env.crypto e.tx.toTransactionPrefix e.txId 0 e.tx.vout)
      (markInputs (some e.keeperBlockHeight) e.tx.vin db).multisigOuts := by
  unfold applyEntry
  rw [putAlias_eq]
  rfl

theorem applyEntry_transactions : (applyEntry env e db).transactions =
    (setFlags true (e.tx.vin.filterMap db.spendTarget) db.transactions).insert e.txId
      e.chainEntry := by
  unfold applyEntry
  rw [putAlias_eq]
  rfl

end

/-! ## Databases up to the flags of direct spends -/

def Db.outputAt (db : Db) (p : Hash × Nat) : Option TxOut :=
  (db.transactions.lookup p.1).bind fun entry => entry.tx.vout[p.2]?

def Db.IsMultisigOutput (db : Db) (p : Hash × Nat) : Prop :=
  ∃ out, db.outputAt p = some out ∧ out.target.isIndexed = false

/-- The same transactions, key images, outputs and aliases.  Only the flags of
key and HTLC outputs may have other values. -/
structure SameLedger (db db' : Db) : Prop where
  spentKeys : db.spentKeys = db'.spentKeys
  outputs : db.outputs = db'.outputs
  multisigOuts : db.multisigOuts = db'.multisigOuts
  aliases : db.aliases = db'.aliases
  addrToAlias : db.addrToAlias = db'.addrToAlias
  core : ∀ t, (db.transactions.lookup t).map TransactionChainEntry.core =
    (db'.transactions.lookup t).map TransactionChainEntry.core
  multisigFlags : ∀ p, db.IsMultisigOutput p →
    flagAt db.transactions p = flagAt db'.transactions p

theorem outputAt_of_core {db db' : Db} {p : Hash × Nat}
    (hcore : (db.transactions.lookup p.1).map TransactionChainEntry.core =
      (db'.transactions.lookup p.1).map TransactionChainEntry.core) :
    db.outputAt p = db'.outputAt p := by
  have hout : ∀ ts : FiniteStore Hash TransactionChainEntry,
      ((ts.lookup p.1).bind fun entry => entry.tx.vout[p.2]?) =
        ((ts.lookup p.1).map TransactionChainEntry.core).bind fun core => core.1.vout[p.2]? := by
    intro ts
    cases ts.lookup p.1 <;> rfl
  rw [Db.outputAt, Db.outputAt, hout, hout, hcore]

theorem flagAt_isSome_of_core {ts ts' : FiniteStore Hash TransactionChainEntry} {p : Hash × Nat}
    (hcore : (ts.lookup p.1).map TransactionChainEntry.core =
      (ts'.lookup p.1).map TransactionChainEntry.core) :
    (flagAt ts p).isSome = (flagAt ts' p).isSome := by
  have hflag : ∀ ts : FiniteStore Hash TransactionChainEntry, (flagAt ts p).isSome =
      ((ts.lookup p.1).map TransactionChainEntry.core).any fun core => p.2 < core.2.2.2 := by
    intro ts
    rw [flagAt, Bool.eq_iff_iff]
    cases ts.lookup p.1 <;> simp [TransactionChainEntry.core]
  rw [hflag, hflag, hcore]

namespace SameLedger

variable {db db' db'' : Db}

theorem refl (db : Db) : SameLedger db db := ⟨rfl, rfl, rfl, rfl, rfl, fun _ => rfl, fun _ _ => rfl⟩

theorem outputAt (h : SameLedger db db') (p : Hash × Nat) : db.outputAt p = db'.outputAt p :=
  outputAt_of_core (h.core p.1)

theorem isMultisigOutput (h : SameLedger db db') {p : Hash × Nat} :
    db.IsMultisigOutput p ↔ db'.IsMultisigOutput p := by
  rw [Db.IsMultisigOutput, h.outputAt, Db.IsMultisigOutput]

theorem trans (h : SameLedger db db') (h' : SameLedger db' db'') : SameLedger db db'' :=
  ⟨h.spentKeys.trans h'.spentKeys, h.outputs.trans h'.outputs,
    h.multisigOuts.trans h'.multisigOuts, h.aliases.trans h'.aliases,
    h.addrToAlias.trans h'.addrToAlias, fun t => (h.core t).trans (h'.core t),
    fun p hp => (h.multisigFlags p hp).trans (h'.multisigFlags p (h.isMultisigOutput.mp hp))⟩

theorem flagAt_isSome (h : SameLedger db db') (p : Hash × Nat) :
    (flagAt db.transactions p).isSome = (flagAt db'.transactions p).isSome :=
  flagAt_isSome_of_core (h.core p.1)

theorem spendTarget (h : SameLedger db db') (input : Txin) :
    db.spendTarget input = db'.spendTarget input := by
  have hresolve : ∀ amount ref, resolveOutputRef db amount ref = resolveOutputRef db' amount ref := by
    intro amount ref
    cases ref with
    | refById txId n => rfl
    | globalIndex index => rw [resolveOutputRef, resolveOutputRef, h.outputs]
  have hdirect : ∀ part, db.directTarget part = db'.directTarget part := by
    intro part
    unfold Db.directTarget
    split
    · exact hresolve _ _
    · rfl
  cases input with
  | gen height => rfl
  | toKey input => exact hdirect input
  | htlc input => exact hdirect input.toTxinToKey
  | multisig input => rw [Db.spendTarget, Db.spendTarget, h.multisigOuts]

end SameLedger

/-! ## What the checks of the inputs promise -/

/-- A multisig input names an output that is not spent, and a direct spend does
not name a multisig output. -/
structure InputChecked (db : Db) (input : Txin) : Prop where
  multisig : ∀ id, input.multisigOutId? = some id →
    ∃ ms, db.multisigOuts.lookup id = some ms ∧ ms.spentHeight = 0 ∧
      db.IsMultisigOutput (ms.txId, ms.outNo) ∧
      flagAt db.transactions (ms.txId, ms.outNo) = some false
  direct : ∀ part p, input.toKeyPart? = some part → db.directTarget part = some p →
    ∃ out, db.outputAt p = some out ∧ out.target.isIndexed = true

/-- The only outputs with a flag that an entry changes for good are those of
direct spends. -/
theorem InputChecked.flag_of_multisigOutput {db : Db} {input : Txin} {p : Hash × Nat}
    (h : InputChecked db input) (htarget : db.spendTarget input = some p)
    (hp : db.IsMultisigOutput p) : flagAt db.transactions p = some false := by
  have hdirect : ∀ part, input.toKeyPart? = some part → db.directTarget part = some p → False := by
    intro part hpart hpart'
    obtain ⟨out, hout, hindexed⟩ := h.direct part p hpart hpart'
    obtain ⟨out', hout', hmultisig⟩ := hp
    rw [hout] at hout'
    rw [Option.some.inj hout', hmultisig] at hindexed
    cases hindexed
  cases input with
  | gen height => cases htarget
  | toKey input => exact (hdirect input rfl htarget).elim
  | htlc input => exact (hdirect input.toTxinToKey rfl htarget).elim
  | multisig input =>
      obtain ⟨ms, hms, _, _, hflag⟩ := h.multisig input.multisigOutId rfl
      rw [Db.spendTarget, hms] at htarget
      cases htarget
      exact hflag

/-! ## Adding -/

theorem processBlockchainTxExtra_ok {tx : Transaction} {node node' : Node}
    (h : processBlockchainTxExtra env tx node = (.ok (), node')) :
    AliasPuttable env tx node.db ∧ node'.db = putAlias env tx node.db := by
  unfold processBlockchainTxExtra at h
  cases hparse : parseAndValidateTxExtra tx.toTransactionPrefix with
  | none =>
      rw [hparse] at h
      cases h
  | some info =>
      rw [hparse] at h
      rcases info with ⟨_ | entry⟩
      · cases h
        exact ⟨⟨_, hparse, nofun⟩, by rw [putAlias, hparse]⟩
      · rw [bind_ok_iff] at h
        obtain ⟨_, n, hprevalidate, hput⟩ := h
        have hdb : n.db = node.db :=
          congrArg Prod.fst ((keeps_prevalidateAliasInfo env tx entry).eq_of_run hprevalidate)
        rw [NodeProcedure.onDb, onPart_ok_iff, hdb] at hput
        obtain ⟨db, hput, rfl⟩ := hput
        have hputtable : AliasPuttable env tx node.db := by
          refine ⟨_, hparse, ?_⟩
          rintro _ ⟨⟩
          rw [hput]
        refine ⟨hputtable, ?_⟩
        rw [putAlias, hparse]
        exact (congrArg Prod.snd hput).symm

/-- Putting an alias does not matter to the inputs and outputs. -/
theorem inputsAddable_putAlias {tx : Transaction} {inputs : List Txin} {db : Db} :
    InputsAddable env (putAlias env tx db) inputs ↔ InputsAddable env db inputs := by
  rw [putAlias_eq]
  exact ⟨fun h => ⟨fun input hinput => ⟨(h.each input hinput).fresh,
      (h.each input hinput).htlcAllowed, (h.each input hinput).target⟩, h.nodup⟩,
    fun h => ⟨fun input hinput => ⟨(h.each input hinput).fresh,
      (h.each input hinput).htlcAllowed, (h.each input hinput).target⟩, h.nodup⟩⟩

theorem outputsStorable_markInputs {spent : Option Nat} {inputs : List Txin} {tx : Transaction}
    {txId : Hash} {db : Db} :
    OutputsStorable env (markInputs spent inputs (putAlias env tx db)) tx.toTransactionPrefix txId 0
        tx.vout ↔
      OutputsStorable env db tx.toTransactionPrefix txId 0 tx.vout := by
  have hlookup : ∀ id, (markInputs spent inputs (putAlias env tx db)).multisigOuts.lookup id = none ↔
      db.multisigOuts.lookup id = none := by
    intro id
    rw [lookup_markInputs_multisigOuts, putAlias_eq]
    split
    · rw [Option.map_eq_none_iff]
    · rfl
  have hsize : (markInputs spent inputs (putAlias env tx db)).size = db.size := by
    rw [putAlias_eq]
    rfl
  constructor
  · rintro ⟨hfresh, hnodup, hzone⟩
    rw [hsize] at hzone
    exact ⟨fun pair hpair => ⟨(hfresh pair hpair).1, (hlookup _).mp (hfresh pair hpair).2⟩, hnodup,
      hzone⟩
  · rintro ⟨hfresh, hnodup, hzone⟩
    rw [← hsize] at hzone
    exact ⟨fun pair hpair => ⟨(hfresh pair hpair).1, (hlookup _).mpr (hfresh pair hpair).2⟩, hnodup,
      hzone⟩

/-- The genesis block spends no multisig output. -/
def MultisigAboveGenesis (inputs : List Txin) (height : Nat) : Prop :=
  ∀ input ∈ inputs, input.multisigOutId?.isSome = true → height ≠ 0

theorem storeTransaction_ok {tx : Transaction} {txId : Hash} {height : Nat} {db db' : Db}
    (h : storeTransaction env tx txId height db = (.ok (), db')) :
    ∃ indexes, OutputsStorable env db tx.toTransactionPrefix txId 0 tx.vout ∧
      db' = insertEntry ⟨txId, tx, height, indexes⟩
        (storeOutputsFrom env.crypto tx.toTransactionPrefix txId 0 tx.vout db) := by
  unfold storeTransaction at h
  rw [bind_ok_iff] at h
  obtain ⟨indexes, db₁, hpush, h⟩ := h
  rw [modify_apply] at h
  cases h
  obtain ⟨hstorable, rfl⟩ := pushTransactionOutputs_ok_iff.mp ⟨indexes, hpush⟩
  exact ⟨indexes, hstorable, rfl⟩

/-- A transaction that was added. -/
theorem addTransactionFromBlock_ok {tx : Transaction} {txId : Hash} {height : Nat}
    {node node' : Node} (hheight : MultisigAboveGenesis tx.vin height)
    (h : addTransactionFromBlock env tx txId height node = (.ok (), node')) :
    ∃ indexes, EntryAddable env node.db ⟨txId, tx, height, indexes⟩ ∧
      validateTxForHardforkSpecificTerms env tx height = true ∧
      node'.db = applyEntry env ⟨txId, tx, height, indexes⟩ node.db := by
  unfold addTransactionFromBlock at h
  simp only [check_bind_ok_iff, require_bind_eq_ok, require_eq_ok, exists_const] at h
  obtain ⟨⟨-, hterms⟩, h⟩ := h
  rw [bind_ok_iff] at h
  obtain ⟨_, n, hextra, h⟩ := h
  obtain ⟨hputtable, hdb⟩ := processBlockchainTxExtra_ok hextra
  rw [NodeProcedure.onDb, onPart_ok_iff, hdb] at h
  obtain ⟨db, h, rfl⟩ := h
  rw [bind_ok_iff] at h
  obtain ⟨_, db₁, hinputs, h⟩ := h
  rw [bind_ok_iff] at h
  obtain ⟨_, db₂, hnew, hstore⟩ := h
  have haddable : InputsAddable env (putAlias env tx node.db) tx.vin ∧
      db₁ = markInputs (some height) tx.vin (putAlias env tx node.db) := by
    unfold addTransactionInputs at hinputs
    rw [bind_ok_iff] at hinputs
    obtain ⟨added, db₁', hadd, hinputs⟩ := hinputs
    cases added with
    | true =>
        cases hinputs
        exact (addInputs_ok_iff hheight).mp (succeeds_eq_true_iff.mp hadd)
    | false =>
        simp only [Bool.false_eq_true, if_false, bind_ok_iff] at hinputs
        obtain ⟨_, _, _, _, _, _, hfail⟩ := hinputs
        cases hfail
  obtain ⟨haddable, rfl⟩ := haddable
  have hfresh : (markInputs (some height) tx.vin (putAlias env tx node.db)).transactions.lookup txId =
      none ∧ db₂ = markInputs (some height) tx.vin (putAlias env tx node.db) := by
    unfold checkTransactionIsNew at hnew
    rw [gets_bind] at hnew
    split at hnew
    · rename_i hnone
      cases hnew
      exact ⟨Option.isNone_iff_eq_none.mp hnone, rfl⟩
    · simp only [bind_ok_iff] at hnew
      obtain ⟨_, _, _, _, _, _, hfail⟩ := hnew
      cases hfail
  obtain ⟨hfresh, rfl⟩ := hfresh
  obtain ⟨indexes, hstorable, rfl⟩ := storeTransaction_ok hstore
  refine ⟨indexes, ⟨hputtable, inputsAddable_putAlias.mp haddable, ?_,
    outputsStorable_markInputs.mp hstorable⟩, hterms, rfl⟩
  rw [markInputs, lookup_setFlags_eq_none, putAlias_eq] at hfresh
  exact hfresh

/-! ## Purging -/

section

variable {e : LedgerEntry} {D : Db}

theorem EntryAddable.lookup_multisigOuts (h : EntryAddable env D e) {id : Hash} {ms : MsOutputEntry}
    (hms : D.multisigOuts.lookup id = some ms) :
    (applyEntry env e D).multisigOuts.lookup id =
      if id ∈ e.tx.multisigIds then some (setSpentHeight e.keeperBlockHeight ms) else some ms := by
  rw [applyEntry_multisigOuts, lookup_insertPairs_of_not_mem, lookup_markInputs_multisigOuts, hms]
  · rfl
  · intro hmem
    obtain ⟨pair, hpair, heq⟩ := List.mem_map.mp hmem
    have hfresh := (h.outputs.fresh pair hpair).2
    rw [heq, hms] at hfresh
    cases hfresh

/-- The new outputs do not change what an input spends. -/
theorem EntryAddable.spendTarget (h : EntryAddable env D e) {input : Txin}
    (hpresent : TargetPresent D input) :
    (applyEntry env e D).spendTarget input = D.spendTarget input := by
  have hdirect : ∀ part : TxinToKey, (part.keyOffsets.length = 1 →
      ∃ p, D.directTarget part = some p) →
      (applyEntry env e D).directTarget part = D.directTarget part := by
    intro part hpart
    unfold Db.directTarget at hpart ⊢
    rcases hoffsets : part.keyOffsets with _ | ⟨ref, _ | ⟨ref', rest⟩⟩
    · rfl
    · rw [hoffsets] at hpart
      obtain ⟨p, hp⟩ := hpart rfl
      cases ref with
      | refById txId n => rfl
      | globalIndex index =>
          simp only [resolveOutputRef, applyEntry_outputs] at hp ⊢
          obtain ⟨entry, hentry, _⟩ := Option.map_eq_some_iff.mp hp
          rw [List.getElem?_append_left (List.getElem?_eq_some_iff.mp hentry).1]
    · rfl
  cases input with
  | gen height => rfl
  | toKey input =>
      refine hdirect input fun hlength => ?_
      obtain ⟨p, hp, _⟩ := hpresent (by simpa [Txin.marksOutput] using hlength)
      exact ⟨p, hp⟩
  | htlc input =>
      refine hdirect input.toTxinToKey fun hlength => ?_
      obtain ⟨p, hp, _⟩ := hpresent (by simpa [Txin.marksOutput] using hlength)
      exact ⟨p, hp⟩
  | multisig input =>
      obtain ⟨p, hp, _⟩ := hpresent rfl
      obtain ⟨ms, hms, _⟩ := Option.map_eq_some_iff.mp hp
      rw [Db.spendTarget, Db.spendTarget, h.lookup_multisigOuts hms, hms]
      split <;> rfl

theorem core_applyEntry {t : Hash} (ht : t ≠ e.txId) :
    ((applyEntry env e D).transactions.lookup t).map TransactionChainEntry.core =
      (D.transactions.lookup t).map TransactionChainEntry.core := by
  rw [applyEntry_transactions, lookup_insert_ite, if_neg ht, core_setFlags]

/-- What the new entry changes about spending concerns its own outputs. -/
theorem EntryAddable.spendTarget_iff (h : EntryAddable env D e) {input : Txin} {p : Hash × Nat}
    (hp : p.1 ≠ e.txId) :
    (applyEntry env e D).spendTarget input = some p ↔ D.spendTarget input = some p := by
  have hdirect : ∀ part : TxinToKey,
      (applyEntry env e D).directTarget part = some p ↔ D.directTarget part = some p := by
    intro part
    unfold Db.directTarget
    rcases part.keyOffsets with _ | ⟨ref, _ | ⟨ref', rest⟩⟩
    · rfl
    · cases ref with
      | refById txId n => rfl
      | globalIndex index =>
          simp only [resolveOutputRef, applyEntry_outputs]
          rcases lt_or_ge index.toNat (D.outputs part.amount).length with hold | hnew
          · rw [List.getElem?_append_left hold]
          · have hunknown : (D.outputs part.amount)[index.toNat]? = none :=
              List.getElem?_eq_none hnew
            rw [hunknown, List.getElem?_append_right hnew]
            constructor
            · intro htarget
              obtain ⟨entry, hentry, rfl⟩ := Option.map_eq_some_iff.mp htarget
              exact absurd (mem_indexEntries (List.mem_of_getElem? hentry)).1 hp
            · intro hnone
              cases hnone
    · rfl
  cases input with
  | gen height => rfl
  | toKey input => exact hdirect input
  | htlc input => exact hdirect input.toTxinToKey
  | multisig input =>
      simp only [Db.spendTarget]
      cases hms : D.multisigOuts.lookup input.multisigOutId with
      | some ms =>
          rw [h.lookup_multisigOuts hms]
          split <;> rfl
      | none =>
          constructor
          · intro htarget
            obtain ⟨ms, hlookup, rfl⟩ := Option.map_eq_some_iff.mp htarget
            rw [applyEntry_multisigOuts] at hlookup
            by_cases hnew : input.multisigOutId ∈ e.multisigOutIds env.crypto
            · obtain ⟨pair, hpair, hid⟩ := List.mem_map.mp hnew
              rw [← hid, lookup_insertPairs_of_mem _ h.outputs.nodup hpair] at hlookup
              rw [← Option.some.inj hlookup] at hp
              exact absurd (mem_multisigEntries hpair).1 hp
            · rw [lookup_insertPairs_of_not_mem _ hnew, lookup_markInputs_multisigOuts, hms]
                at hlookup
              split at hlookup <;> cases hlookup
          · intro hnone
            cases hnone

/-- A known transaction is not the new one. -/
theorem EntryAddable.ne_of_flagAt (h : EntryAddable env D e) {p : Hash × Nat}
    (hflag : (flagAt D.transactions p).isSome = true) : p.1 ≠ e.txId := by
  intro heq
  rw [flagAt, heq, h.fresh] at hflag
  cases hflag

theorem EntryAddable.targetPresent (h : EntryAddable env D e) {input : Txin}
    (hpresent : TargetPresent D input) : TargetPresent (applyEntry env e D) input := by
  intro hmarks
  obtain ⟨p, htarget, hflag⟩ := hpresent hmarks
  refine ⟨p, by rw [h.spendTarget hpresent, htarget], ?_⟩
  rw [flagAt_isSome_of_core (core_applyEntry (h.ne_of_flagAt hflag))]
  exact hflag

/-- The marks and the alias of the entry taken away from a database. -/
def unmarkEntry (D : Db) (e : LedgerEntry) (db : Db) : Db :=
  { markInputs none e.tx.vin db with
    aliases := D.aliases
    addrToAlias := D.addrToAlias }

/-- What the purge leaves behind of a database `db` with the entry on top of `D`. -/
def removeEntry (D : Db) (e : LedgerEntry) (db : Db) : Db :=
  { D with
    blocks := db.blocks
    blocksIndex := db.blocksIndex
    perBlockGindexIncs := db.perBlockGindexIncs
    transactions :=
      (setFlags false (e.tx.vin.filterMap D.spendTarget) db.transactions).erase e.txId }

/-- The inputs of the top entry can be purged. -/
theorem EntryAddable.inputPurgeable (h : EntryAddable env D e) {db : Db}
    (hsame : SameLedger db (applyEntry env e D)) {input : Txin} (hinput : input ∈ e.tx.vin) :
    InputPurgeable db input where
  spent := by
    intro ki hki
    have hmem : ki ∈ e.tx.keyImages := List.mem_filterMap.mpr ⟨input, hinput, hki⟩
    rw [hsame.spentKeys, applyEntry_spentKeys, lookup_insertMany, if_pos hmem]
    rfl
  target := by
    intro hmarks
    obtain ⟨p, htarget, hflag⟩ := h.targetPresent (h.inputs.each input hinput).target hmarks
    exact ⟨p, by rw [hsame.spendTarget, htarget], by rw [hsame.flagAt_isSome, hflag]⟩

theorem EntryAddable.spendTargets (h : EntryAddable env D e) {db : Db}
    (hsame : SameLedger db (applyEntry env e D)) :
    e.tx.vin.filterMap db.spendTarget = e.tx.vin.filterMap D.spendTarget := by
  refine List.filterMap_congr fun input hinput => ?_
  rw [hsame.spendTarget, h.spendTarget (h.inputs.each input hinput).target]

/-- The marks and the multisig outputs of the entry taken away again. -/
theorem EntryAddable.unmark_multisigOuts (h : EntryAddable env D e)
    (hchecked : ∀ input ∈ e.tx.vin, InputChecked D input) :
    eraseMany (e.multisigOutIds env.crypto)
      (modifyMany e.tx.multisigIds (setSpentHeight 0) (applyEntry env e D).multisigOuts) =
        D.multisigOuts := by
  apply Finmap.ext_lookup
  intro id
  rw [lookup_eraseMany, lookup_modifyMany _ (setSpentHeight_idem 0)]
  by_cases hnew : id ∈ e.multisigOutIds env.crypto
  · obtain ⟨pair, hpair, rfl⟩ := List.mem_map.mp hnew
    rw [if_pos hnew, (h.outputs.fresh pair hpair).2]
  · rw [if_neg hnew]
    by_cases hspent : id ∈ e.tx.multisigIds
    · obtain ⟨input, hinput, hid⟩ := List.mem_filterMap.mp hspent
      obtain ⟨ms, hms, hunspent, _⟩ := (hchecked input hinput).multisig id hid
      rw [if_pos hspent, h.lookup_multisigOuts hms, if_pos hspent, hms, Option.map_some]
      -- an output that was not spent gets its height zero back
      obtain ⟨txId, outNo, spentHeight⟩ := ms
      cases hunspent
      rfl
    · rw [if_neg hspent, applyEntry_multisigOuts, lookup_insertPairs_of_not_mem _ hnew,
        lookup_markInputs_multisigOuts]
      exact if_neg hspent

theorem EntryAddable.unmark_spentKeys (h : EntryAddable env D e) :
    eraseMany e.tx.keyImages (applyEntry env e D).spentKeys = D.spentKeys := by
  apply Finmap.ext_lookup
  intro ki
  rw [applyEntry_spentKeys, lookup_eraseMany, lookup_insertMany]
  by_cases hki : ki ∈ e.tx.keyImages
  · obtain ⟨input, hinput, hinput'⟩ := List.mem_filterMap.mp hki
    rw [if_pos hki, (h.inputs.each input hinput).fresh ki hinput']
  · rw [if_neg hki, if_neg hki]

/-- `eraseTransaction` after the marks and the alias were taken away. -/
theorem EntryAddable.eraseTransaction (h : EntryAddable env D e)
    (hchecked : ∀ input ∈ e.tx.vin, InputChecked D input) {db : Db}
    (hsame : SameLedger db (applyEntry env e D)) :
    eraseTransaction env e.tx e.txId (unmarkEntry D e db) = (.ok (), removeEntry D e db) := by
  have hspent : (unmarkEntry D e db).spentKeys = D.spentKeys := by
    rw [← h.unmark_spentKeys, ← hsame.spentKeys]
    rfl
  have hms : (unmarkEntry D e db).multisigOuts =
      modifyMany e.tx.multisigIds (setSpentHeight 0) (applyEntry env e D).multisigOuts := by
    rw [← hsame.multisigOuts]
    rfl
  have hpop : popTransactionFromGlobalIndex env e.tx e.txId (unmarkEntry D e db) =
      (.ok (), { D with
          blocks := db.blocks
          blocksIndex := db.blocksIndex
          perBlockGindexIncs := db.perBlockGindexIncs
          transactions := (unmarkEntry D e db).transactions }) := by
    rw [popTransactionFromGlobalIndex, popTransactionOutputs_apply D.outputs ?_ ?_
      h.outputs.nodup]
    · have hpopped := h.unmark_multisigOuts hchecked
      rw [LedgerEntry.multisigOutIds] at hpopped
      rw [hms, hspent, hpopped]
      rfl
    · intro amount
      have houtputs : (unmarkEntry D e db).outputs = db.outputs := rfl
      rw [houtputs, hsame.outputs, applyEntry_outputs]
    · intro pair hpair
      refine ⟨(h.outputs.fresh pair hpair).1, ?_⟩
      rw [hms, lookup_modifyMany _ (setSpentHeight_idem 0), applyEntry_multisigOuts,
        lookup_insertPairs_of_mem _ h.outputs.nodup hpair]
      split <;> rfl
  unfold Chinet.eraseTransaction
  rw [bind_of_ok (succeeds_eq_true_iff.mpr hpop), modify_bind, removeEntry, ← h.spendTargets hsame]
  rfl

theorem flagAt_insert_of_ne {ts : FiniteStore Hash TransactionChainEntry} {t : Hash}
    {entry : TransactionChainEntry} {p : Hash × Nat} (hp : p.1 ≠ t) :
    flagAt (ts.insert t entry) p = flagAt ts p := by
  rw [flagAt, flagAt, lookup_insert_ite, if_neg hp]

theorem flagAt_erase_of_ne {ts : FiniteStore Hash TransactionChainEntry} {t : Hash} {p : Hash × Nat}
    (hp : p.1 ≠ t) : flagAt (ts.erase t) p = flagAt ts p := by
  rw [flagAt, flagAt, lookup_erase_ite, if_neg hp]

theorem flagAt_applyEntry {p : Hash × Nat} (hp : p.1 ≠ e.txId) :
    flagAt (applyEntry env e D).transactions p =
      if p ∈ e.tx.vin.filterMap D.spendTarget then (flagAt D.transactions p).map fun _ => true
      else flagAt D.transactions p := by
  rw [applyEntry_transactions, flagAt_insert_of_ne hp, flagAt_setFlags]

theorem flagAt_removeEntry {db : Db} {p : Hash × Nat} (hp : p.1 ≠ e.txId) :
    flagAt (removeEntry D e db).transactions p =
      if p ∈ e.tx.vin.filterMap D.spendTarget then (flagAt db.transactions p).map fun _ => false
      else flagAt db.transactions p := by
  rw [removeEntry, flagAt_erase_of_ne hp, flagAt_setFlags]

theorem EntryAddable.core_removeEntry (h : EntryAddable env D e) {db : Db}
    (hsame : SameLedger db (applyEntry env e D)) (t : Hash) :
    ((removeEntry D e db).transactions.lookup t).map TransactionChainEntry.core =
      (D.transactions.lookup t).map TransactionChainEntry.core := by
  rw [removeEntry, lookup_erase_ite]
  by_cases ht : t = e.txId
  · rw [if_pos ht, ht, h.fresh]
  · rw [if_neg ht, core_setFlags, hsame.core, core_applyEntry ht]

/-- Purging the top entry gives back the ledger below it. -/
theorem EntryAddable.sameLedger_removeEntry (h : EntryAddable env D e)
    (hchecked : ∀ input ∈ e.tx.vin, InputChecked D input) {db : Db}
    (hsame : SameLedger db (applyEntry env e D)) : SameLedger (removeEntry D e db) D := by
  refine ⟨rfl, rfl, rfl, rfl, rfl, h.core_removeEntry hsame, ?_⟩
  intro p hp
  have hpD : D.IsMultisigOutput p := by
    rw [Db.IsMultisigOutput, ← outputAt_of_core (h.core_removeEntry hsame p.1)]
    exact hp
  have hne : p.1 ≠ e.txId := by
    intro heq
    obtain ⟨out, hout, _⟩ := hpD
    rw [Db.outputAt, heq, h.fresh] at hout
    cases hout
  have hpdb : db.IsMultisigOutput p := by
    rw [Db.IsMultisigOutput, hsame.outputAt, outputAt_of_core (core_applyEntry hne)]
    exact hpD
  rw [flagAt_removeEntry hne, hsame.multisigFlags p hpdb, flagAt_applyEntry hne]
  by_cases hmem : p ∈ e.tx.vin.filterMap D.spendTarget
  · obtain ⟨input, hinput, htarget⟩ := List.mem_filterMap.mp hmem
    rw [if_pos hmem, if_pos hmem, (hchecked input hinput).flag_of_multisigOutput htarget hpD]
    rfl
  · rw [if_neg hmem, if_neg hmem]

/-- The entry on top is found under its id. -/
theorem SameLedger.lookup_top {db : Db} (hsame : SameLedger db (applyEntry env e D)) :
    ∃ entry, db.transactions.lookup e.txId = some entry ∧ entry.tx = e.tx := by
  have hcore := hsame.core e.txId
  rw [applyEntry_transactions, lookup_insert_ite, if_pos rfl] at hcore
  obtain ⟨entry, hentry, hsame⟩ := Option.map_eq_some_iff.mp hcore
  exact ⟨entry, hentry, congrArg Prod.fst hsame⟩

/-- The first part of `purge_transaction_from_blockchain`. -/
theorem EntryAddable.unmark (h : EntryAddable env D e) (hconsistent : AliasConsistent D) {node : Node}
    (hsame : SameLedger node.db (applyEntry env e D)) :
    NodeProcedure.onDb (do
      let _ ← succeeds (purgeTransactionKeyimages e.tx true)
      unprocessBlockchainTxExtra e.tx) node =
        (.ok (), { node with db := unmarkEntry D e node.db }) := by
  have hpurge := purgeTransactionKeyimages_apply h.inputs.nodup
    fun input hinput => h.inputPurgeable hsame hinput
  have haliases : (markInputs none e.tx.vin node.db).aliases = (putAlias env e.tx D).aliases := by
    rw [← applyEntry_aliases env e D, ← hsame.aliases]
    rfl
  have haddrs : (markInputs none e.tx.vin node.db).addrToAlias =
      (putAlias env e.tx D).addrToAlias := by
    rw [← applyEntry_addrToAlias env e D, ← hsame.addrToAlias]
    rfl
  rw [NodeProcedure.onDb, onPart_ok_iff]
  refine ⟨_, ?_, rfl⟩
  rw [bind_of_ok (succeeds_eq_true_iff.mpr hpurge)]
  exact h.extra.unprocess hconsistent haliases haddrs

/-- The last part of `purge_transaction_from_blockchain`. -/
theorem EntryAddable.eraseTop (h : EntryAddable env D e)
    (hchecked : ∀ input ∈ e.tx.vin, InputChecked D input) {db : Db}
    (hsame : SameLedger db (applyEntry env e D)) {node : Node} (hdb : node.db = unmarkEntry D e db) :
    (do
      NodeProcedure.onDb (Chinet.eraseTransaction env e.tx e.txId)
      pure e.tx : NodeProcedure Transaction) node =
        (.ok e.tx, { node with db := removeEntry D e db }) := by
  rw [bind_of_ok]
  · rfl
  · rw [NodeProcedure.onDb, onPart_ok_iff, hdb]
    exact ⟨_, h.eraseTransaction hchecked hsame, rfl⟩

/-- `purge_transaction_from_blockchain` on the top entry. -/
theorem EntryAddable.purge (h : EntryAddable env D e) (hconsistent : AliasConsistent D)
    (hchecked : ∀ input ∈ e.tx.vin, InputChecked D input) {node : Node}
    (hsame : SameLedger node.db (applyEntry env e D))
    (hpool : isCoinbase e.tx.toTransactionPrefix = false → poolAccepts env node.db e.tx = true) :
    ∃ node', purgeTransactionFromBlockchain env e.txId node = (.ok e.tx, node') ∧
      node'.db = removeEntry D e node.db := by
  obtain ⟨entry, hentry, htx⟩ := hsame.lookup_top
  unfold purgeTransactionFromBlockchain
  rw [gets_bind, hentry]
  dsimp only
  rw [htx, bind_of_ok (h.unmark hconsistent hsame)]
  by_cases hcoinbase : isCoinbase e.tx.toTransactionPrefix = true
  · rw [if_pos hcoinbase, h.eraseTop hchecked hsame rfl]
    exact ⟨_, rfl, rfl⟩
  · have haccepts : poolAccepts env (unmarkEntry D e node.db) e.tx = true :=
      hpool (by simpa using hcoinbase)
    have hadd : ∃ node', poolAddTx env e.tx { node with db := unmarkEntry D e node.db } =
        (.ok (), node') ∧ node'.db = unmarkEntry D e node.db := by
      rw [poolAddTx, bind_of_ok (by rw [check_apply, haccepts]; rfl)]
      exact ⟨_, rfl, rfl⟩
    obtain ⟨node₁, hadd, hdb⟩ := hadd
    rw [if_neg hcoinbase, bind_of_ok hadd, h.eraseTop hchecked hsame hdb]
    exact ⟨_, rfl, rfl⟩

/-- The pool refuses a transaction, which then is not purged. -/
theorem EntryAddable.purge_rejected (h : EntryAddable env D e) (hconsistent : AliasConsistent D)
    {node : Node} (hsame : SameLedger node.db (applyEntry env e D))
    (hcoinbase : isCoinbase e.tx.toTransactionPrefix = false)
    (hpool : poolAccepts env node.db e.tx = false) :
    ∃ node', purgeTransactionFromBlockchain env e.txId node = (.error .rejected, node') := by
  obtain ⟨entry, hentry, htx⟩ := hsame.lookup_top
  have hrefused : poolAccepts env (unmarkEntry D e node.db) e.tx = false := hpool
  have hadd : poolAddTx env e.tx { node with db := unmarkEntry D e node.db } =
      (.error .rejected, { node with db := unmarkEntry D e node.db }) := by
    rw [poolAddTx, bind_of_error (by rw [check_apply, hrefused]; rfl)]
  unfold purgeTransactionFromBlockchain
  rw [gets_bind, hentry]
  dsimp only
  rw [htx, bind_of_ok (h.unmark hconsistent hsame), if_neg (by simp [hcoinbase]),
    bind_of_error hadd]
  exact ⟨_, rfl⟩

end

end Chinet
