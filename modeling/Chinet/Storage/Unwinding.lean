import Chinet.Storage.InputChecks

/-!
# Purging the transactions of a block in reverse order

The transactions of a block are added one after the other, each checked against
the ledger that the ones before it left behind (`EntriesValid`).  The purge runs
from the last one down, so at each turn the entry to purge is on top and
`EntryAddable.purge` applies.  What it leaves behind is `unwindEntries`: the old
ledger, with the flag of every output that was touched put to unspent.

The pool has to take each transaction back; the first one it refuses stays.
-/

namespace Chinet

open Procedure FiniteStore

variable {env : Env}

/-! ## Entries that are added one after the other -/

structure EntryValid (env : Env) (D : Db) (e : LedgerEntry) : Prop where
  addable : EntryAddable env D e
  checked : ∀ input ∈ e.tx.vin, InputChecked D input

def applyEntries (env : Env) : List LedgerEntry → Db → Db
  | [], D => D
  | e :: rest, D => applyEntries env rest (applyEntry env e D)

def EntriesValid (env : Env) : Db → List LedgerEntry → Prop
  | _, [] => True
  | D, e :: rest => EntryValid env D e ∧ EntriesValid env (applyEntry env e D) rest

/-- The outputs whose flags the entries change, some of them their own. -/
def touchedOutputs (env : Env) : Db → List LedgerEntry → List (Hash × Nat)
  | _, [] => []
  | D, e :: rest => e.tx.vin.filterMap D.spendTarget ++ touchedOutputs env (applyEntry env e D) rest

/-- What the purges from the last entry down leave behind. -/
def unwindEntries (env : Env) : Db → List LedgerEntry → Db → Db
  | _, [], db => db
  | D, e :: rest, db => removeEntry D e (unwindEntries env (applyEntry env e D) rest db)

@[simp] theorem applyEntries_chainView (es : List LedgerEntry) (D : Db) :
    (applyEntries env es D).chainView = D.chainView := by
  induction es generalizing D with
  | nil => rfl
  | cons e rest ih => rw [applyEntries, ih, applyEntry_chainView]

/-! ## Well-formed ledgers -/

structure LedgerWellFormed (D : Db) : Prop where
  flags : FlagsComplete D
  aliases : AliasConsistent D

theorem AliasConsistent.congr {db db' : Db} (h : AliasConsistent db')
    (haliases : db.aliases = db'.aliases) (haddrs : db.addrToAlias = db'.addrToAlias) :
    AliasConsistent db := by
  refine ⟨?_, ?_, ?_⟩
  · rw [haliases]
    exact h.histories
  · rw [haddrs]
    exact h.noEmptySets
  · intro name addr
    rw [haddrs, h.index, Db.aliasAddress, Db.aliasAddress, Db.aliasHistory, Db.aliasHistory, haliases]

theorem LedgerWellFormed.empty : LedgerWellFormed Db.empty := by
  refine ⟨?_, ?_, ?_, ?_⟩
  · intro t entry hentry
    cases hentry
  · intro name history hhistory
    cases hhistory
  · intro addr names hnames
    cases hnames
  · intro name addr
    exact ⟨fun h => absurd h (Finset.notMem_empty name), nofun⟩

theorem SameLedger.wellFormed {db D : Db} (h : SameLedger db D) (hD : LedgerWellFormed D) :
    LedgerWellFormed db :=
  ⟨hD.flags.of_core h.core, hD.aliases.congr h.aliases h.addrToAlias⟩

theorem EntryAddable.wellFormed {D : Db} {e : LedgerEntry} (h : EntryAddable env D e)
    (hD : LedgerWellFormed D) : LedgerWellFormed (applyEntry env e D) where
  flags := by
    intro t entry hentry
    by_cases ht : t = e.txId
    · rw [applyEntry_transactions, lookup_insert_ite, if_pos ht] at hentry
      rw [← Option.some.inj hentry]
      exact List.length_replicate
    · have hcore := @core_applyEntry env _ D _ ht
      rw [hentry] at hcore
      obtain ⟨entry', hentry', hsame⟩ := Option.map_eq_some_iff.mp hcore.symm
      simp only [TransactionChainEntry.core, Prod.mk.injEq] at hsame
      rw [← hsame.2.2.2, ← hsame.1]
      exact hD.flags t entry' hentry'
  aliases := (h.extra.consistent hD.aliases).congr rfl rfl

theorem EntriesValid.wellFormed {D : Db} {es : List LedgerEntry} (h : EntriesValid env D es)
    (hD : LedgerWellFormed D) : LedgerWellFormed (applyEntries env es D) := by
  induction es generalizing D with
  | nil => exact hD
  | cons e rest ih => exact ih h.2 (h.1.addable.wellFormed hD)

/-! ## Ids -/

/-- The ids of new transactions are new. -/
theorem EntriesValid.ne_of_known {D : Db} {es : List LedgerEntry} (h : EntriesValid env D es)
    {t : Hash} (ht : D.transactions.lookup t ≠ none) : ∀ e ∈ es, t ≠ e.txId := by
  induction es generalizing D with
  | nil => exact nofun
  | cons e rest ih =>
      intro e' he'
      have hne : t ≠ e.txId := by
        rintro rfl
        exact ht h.1.addable.fresh
      rcases List.mem_cons.mp he' with rfl | hrest
      · exact hne
      · refine ih h.2 ?_ e' hrest
        rw [applyEntry_transactions, lookup_insert_ite, if_neg hne, Ne, lookup_setFlags_eq_none]
        exact ht

theorem EntriesValid.rest_ne {D : Db} {e : LedgerEntry} {rest : List LedgerEntry}
    (h : EntriesValid env D (e :: rest)) : ∀ e' ∈ rest, e.txId ≠ e'.txId := by
  refine h.2.ne_of_known ?_
  rw [applyEntry_transactions, lookup_insert_ite, if_pos rfl]
  exact Option.some_ne_none _

/-! ## The purges -/

theorem purgeTransactions_append (ids ids' : List Hash) (res : Bool) (txs : TransactionsMap)
    (node : Node) :
    purgeTransactions env (ids ++ ids') res txs node =
      (do
        let (res', txs') ← purgeTransactions env ids res txs
        purgeTransactions env ids' res' txs' : NodeProcedure (Bool × TransactionsMap)) node := by
  induction ids generalizing res txs node with
  | nil => rfl
  | cons id rest ih =>
      rw [List.cons_append, purgeTransactions, purgeTransactions, bind_apply, bind_apply, bind_apply]
      rcases tryPurgeTransaction env id node with ⟨_ | tx, node₁⟩
      · rfl
      · cases tx with
        | none => exact ih _ _ _
        | some tx => exact ih _ _ _

/-- A failed purge is not forgotten. -/
theorem purgeTransactions_of_false {ids : List Hash} {txs txs' : TransactionsMap} {res : Bool}
    {node node' : Node} (h : purgeTransactions env ids false txs node = (.ok (res, txs'), node')) :
    res = false := by
  induction ids generalizing txs node with
  | nil =>
      cases h
      rfl
  | cons id rest ih =>
      rw [purgeTransactions, bind_ok_iff] at h
      obtain ⟨tx, node₁, _, h⟩ := h
      cases tx with
      | none => exact ih h
      | some tx => exact ih h

/-- The pool takes the transaction back, or it is a coinbase. -/
def Purgeable (env : Env) (size : Nat) (tx : Transaction) : Prop :=
  isCoinbase tx.toTransactionPrefix = false →
    ∀ db : Db, db.size = size → poolAccepts env db tx = true

theorem size_of_chainView {db db' : Db} (h : db.chainView = db'.chainView) : db.size = db'.size :=
  congrArg (fun view => view.1.length) h

@[simp] theorem removeEntry_chainView (D : Db) (e : LedgerEntry) (db : Db) :
    (removeEntry D e db).chainView = db.chainView := rfl

@[simp] theorem unwindEntries_chainView (D : Db) (es : List LedgerEntry) (db : Db) :
    (unwindEntries env D es db).chainView = db.chainView := by
  induction es generalizing D with
  | nil => rfl
  | cons e rest ih => rw [unwindEntries, removeEntry_chainView, ih]

theorem sameLedger_unwindEntries {D : Db} {es : List LedgerEntry} (h : EntriesValid env D es)
    {db : Db} (hsame : SameLedger db (applyEntries env es D)) :
    SameLedger (unwindEntries env D es db) D := by
  induction es generalizing D with
  | nil => exact hsame
  | cons e rest ih =>
      exact h.1.addable.sameLedger_removeEntry h.1.checked (ih h.2 hsame)

/-- An entry is on top when those behind it are taken back. -/
theorem EntriesValid.onTop {D db db₁ : Db} {e : LedgerEntry} {rest : List LedgerEntry}
    (h : EntriesValid env D (e :: rest)) (hsame : SameLedger db (applyEntries env (e :: rest) D))
    (hdb : db₁ = unwindEntries env (applyEntry env e D) rest db) :
    SameLedger db₁ (applyEntry env e D) ∧ db₁.size = db.size := by
  rw [hdb]
  exact ⟨sameLedger_unwindEntries h.2 hsame, size_of_chainView (unwindEntries_chainView _ _ _)⟩

theorem tryPurgeTransaction_of_ok {txId : Hash} {tx : Transaction} {node node' : Node}
    (h : purgeTransactionFromBlockchain env txId node = (.ok tx, node')) :
    tryPurgeTransaction env txId node = (.ok (some tx), node') := by
  rw [tryPurgeTransaction, h]

theorem tryPurgeTransaction_of_rejected {txId : Hash} {node node' : Node}
    (h : purgeTransactionFromBlockchain env txId node = (.error .rejected, node')) :
    tryPurgeTransaction env txId node = (.ok none, node') := by
  rw [tryPurgeTransaction, h]

/-- The purge of entries that the pool takes back, from the last one down. -/
theorem EntriesValid.purge {D : Db} {es : List LedgerEntry} (h : EntriesValid env D es)
    (hD : LedgerWellFormed D) {node : Node}
    (hsame : SameLedger node.db (applyEntries env es D))
    (hpool : ∀ e ∈ es, Purgeable env node.db.size e.tx) (txs : TransactionsMap) :
    ∃ txs' node', purgeTransactions env (es.map LedgerEntry.txId).reverse true txs node =
        (.ok (true, txs'), node') ∧ node'.db = unwindEntries env D es node.db := by
  induction es generalizing D with
  | nil => exact ⟨txs, node, rfl, rfl⟩
  | cons e rest ih =>
      obtain ⟨txs₁, node₁, hrun, hdb⟩ := ih h.2 (h.1.addable.wellFormed hD) hsame
        (fun e' he' => hpool e' (List.mem_cons_of_mem e he'))
      -- now the entry is on top
      obtain ⟨htop, hsize⟩ := h.onTop hsame hdb
      obtain ⟨node₂, hpurge, hdb₂⟩ := h.1.addable.purge hD.aliases h.1.checked htop
        fun hcoinbase => hpool e List.mem_cons_self hcoinbase node₁.db hsize
      refine ⟨txs₁.insert e.txId e.tx, node₂, ?_, ?_⟩
      · rw [List.map_cons, List.reverse_cons, purgeTransactions_append, bind_of_ok hrun]
        dsimp only
        rw [purgeTransactions, bind_of_ok (tryPurgeTransaction_of_ok hpurge)]
        rfl
      · rw [hdb₂, hdb, unwindEntries]

/-- If all purges succeed, the pool took every transaction back. -/
theorem EntriesValid.purgeable_of_purge {D : Db} {es : List LedgerEntry}
    (h : EntriesValid env D es) (hD : LedgerWellFormed D) {node node' : Node}
    (hsame : SameLedger node.db (applyEntries env es D)) {txs txs' : TransactionsMap}
    (hrun : purgeTransactions env (es.map LedgerEntry.txId).reverse true txs node =
      (.ok (true, txs'), node')) :
    ∀ e ∈ es, Purgeable env node.db.size e.tx := by
  induction es generalizing D node' txs' with
  | nil => exact nofun
  | cons e rest ih =>
      rw [List.map_cons, List.reverse_cons, purgeTransactions_append, bind_ok_iff] at hrun
      obtain ⟨⟨res, txs₁⟩, node₁, hrest, hrun⟩ := hrun
      have hres : res = true := by
        cases res with
        | true => rfl
        | false => exact (purgeTransactions_of_false hrun).symm
      subst hres
      have hpool := ih h.2 (h.1.addable.wellFormed hD) hsame hrest
      obtain ⟨txs₂, node₂, hrest', hdb⟩ := h.2.purge (h.1.addable.wellFormed hD) hsame hpool txs
      rw [hrest'] at hrest
      cases hrest
      obtain ⟨htop, hsize⟩ := h.onTop hsame hdb
      intro e' he'
      rcases List.mem_cons.mp he' with rfl | he'
      · intro hcoinbase db hdbsize
        by_contra hrefused
        have haccepts : poolAccepts env node₁.db e'.tx = false := by
          rw [poolAccepts, hsize, ← hdbsize]
          exact Bool.eq_false_iff.mpr hrefused
        obtain ⟨node₃, hpurge⟩ :=
          h.1.addable.purge_rejected hD.aliases htop hcoinbase haccepts
        dsimp only at hrun
        rw [purgeTransactions, bind_of_ok (tryPurgeTransaction_of_rejected hpurge)] at hrun
        cases hrun
      · exact hpool e' he'

/-! ## The purge of a block -/

/-- `purge_block_data_from_blockchain` on the coinbase and the first
transactions of a block. -/
theorem EntriesValid.purgeBlockData {D : Db} {c : LedgerEntry} {es : List LedgerEntry}
    (h : EntriesValid env D (c :: es)) (hD : LedgerWellFormed D) {node : Node}
    (hsame : SameLedger node.db (applyEntries env (c :: es) D)) {bl : Block} {n : Nat}
    (hcoinbase : c.txId = getTransactionHash env.crypto bl.minerTx)
    (hids : es.map LedgerEntry.txId = bl.txHashes.take n) (hn : n ≤ bl.txHashes.length)
    (hpool : ∀ e ∈ c :: es, Purgeable env node.db.size e.tx) :
    ∃ txs node', purgeBlockDataFromBlockchain env bl n node = (.ok txs, node') ∧
      node'.db = unwindEntries env D (c :: es) node.db := by
  obtain ⟨txs, node₁, hrun, hdb⟩ := h.2.purge (h.1.addable.wellFormed hD) hsame
    (fun e he => hpool e (List.mem_cons_of_mem c he)) ∅
  obtain ⟨htop, hsize⟩ := h.onTop hsame hdb
  obtain ⟨node₂, hpurge, hdb₂⟩ := h.1.addable.purge hD.aliases h.1.checked htop
    fun hgen => hpool c List.mem_cons_self hgen node₁.db hsize
  refine ⟨txs, node₂, ?_, by rw [hdb₂, hdb, unwindEntries]⟩
  unfold purgeBlockDataFromBlockchain
  rw [check_bind_ok_iff]
  refine ⟨(), by simpa using hn, ?_⟩
  rw [← hids, bind_of_ok hrun]
  dsimp only
  rw [← hcoinbase, bind_of_ok (tryPurgeTransaction_of_ok hpurge)]
  rfl

/-- If `purge_block_data_from_blockchain` succeeds, every transaction was taken back. -/
theorem EntriesValid.purgeable_of_purgeBlockData {D : Db} {c : LedgerEntry} {es : List LedgerEntry}
    (h : EntriesValid env D (c :: es)) (hD : LedgerWellFormed D) {node node' : Node}
    (hsame : SameLedger node.db (applyEntries env (c :: es) D)) {bl : Block} {n : Nat}
    (hcoinbase : c.txId = getTransactionHash env.crypto bl.minerTx)
    (hids : es.map LedgerEntry.txId = bl.txHashes.take n) {txs : TransactionsMap}
    (hrun : purgeBlockDataFromBlockchain env bl n node = (.ok txs, node')) :
    ∀ e ∈ c :: es, Purgeable env node.db.size e.tx := by
  have hall : ∃ txs' node'', purgeTransactions env ((c :: es).map LedgerEntry.txId).reverse true ∅
      node = (.ok (true, txs'), node'') := by
    unfold purgeBlockDataFromBlockchain at hrun
    rw [check_bind_ok_iff] at hrun
    obtain ⟨_, _, hrun⟩ := hrun
    rw [← hids, bind_ok_iff] at hrun
    obtain ⟨⟨res, txs₁⟩, node₁, hrest, hrun⟩ := hrun
    dsimp only at hrun
    rw [← hcoinbase, bind_ok_iff] at hrun
    obtain ⟨minerTx, node₂, hminer, hrun⟩ := hrun
    cases res with
    | false =>
        rw [Bool.false_and, if_neg (by simp)] at hrun
        cases hrun
    | true =>
        cases minerTx with
        | none =>
            rw [if_neg (by simp)] at hrun
            cases hrun
        | some tx =>
            refine ⟨txs₁.insert c.txId tx, node₂, ?_⟩
            rw [List.map_cons, List.reverse_cons, purgeTransactions_append, bind_of_ok hrest]
            dsimp only
            rw [purgeTransactions, bind_of_ok hminer]
            rfl
  obtain ⟨txs', node'', hall⟩ := hall
  exact h.purgeable_of_purge hD hsame hall

/-! ## The flags afterwards -/

theorem flagAt_applyEntries {D : Db} {es : List LedgerEntry} {p : Hash × Nat}
    (hp : ∀ e ∈ es, p.1 ≠ e.txId) :
    flagAt (applyEntries env es D).transactions p =
      if p ∈ touchedOutputs env D es then (flagAt D.transactions p).map fun _ => true
      else flagAt D.transactions p := by
  induction es generalizing D with
  | nil => rfl
  | cons e rest ih =>
      rw [applyEntries, ih (fun e' he' => hp e' (List.mem_cons_of_mem e he')),
        flagAt_applyEntry (hp e List.mem_cons_self), touchedOutputs]
      by_cases hrest : p ∈ touchedOutputs env (applyEntry env e D) rest <;>
        by_cases hfirst : p ∈ e.tx.vin.filterMap D.spendTarget <;>
        simp [hrest, hfirst, Function.comp_def]

theorem flagAt_unwindEntries {D : Db} {es : List LedgerEntry} {db : Db} {p : Hash × Nat}
    (hp : ∀ e ∈ es, p.1 ≠ e.txId) :
    flagAt (unwindEntries env D es db).transactions p =
      if p ∈ touchedOutputs env D es then (flagAt db.transactions p).map fun _ => false
      else flagAt db.transactions p := by
  induction es generalizing D with
  | nil => rfl
  | cons e rest ih =>
      rw [unwindEntries, flagAt_removeEntry (hp e List.mem_cons_self),
        ih (fun e' he' => hp e' (List.mem_cons_of_mem e he')), touchedOutputs]
      by_cases hrest : p ∈ touchedOutputs env (applyEntry env e D) rest <;>
        by_cases hfirst : p ∈ e.tx.vin.filterMap D.spendTarget <;>
        simp [hrest, hfirst, Function.comp_def]

/-- The old outputs that the entries touch are those their inputs name before
any of them is added. -/
theorem EntriesValid.mem_touchedOutputs {D : Db} {es : List LedgerEntry}
    (h : EntriesValid env D es) {p : Hash × Nat} (hp : D.transactions.lookup p.1 ≠ none) :
    p ∈ touchedOutputs env D es ↔ ∃ e ∈ es, ∃ input ∈ e.tx.vin, D.spendTarget input = some p := by
  induction es generalizing D with
  | nil => simp [touchedOutputs]
  | cons e rest ih =>
      have hne : p.1 ≠ e.txId := h.ne_of_known hp e List.mem_cons_self
      have hknown : (applyEntry env e D).transactions.lookup p.1 ≠ none := by
        rw [applyEntry_transactions, lookup_insert_ite, if_neg hne, Ne, lookup_setFlags_eq_none]
        exact hp
      rw [touchedOutputs, List.mem_append, ih h.2 hknown, List.mem_filterMap]
      simp only [h.1.addable.spendTarget_iff hne, List.mem_cons, exists_eq_or_imp]

/-- When unwinding gives back the transactions with all their flags: no output
that the entries touch was marked before. -/
theorem EntriesValid.unwindEntries_transactions_eq_iff {D : Db} {es : List LedgerEntry}
    (h : EntriesValid env D es) {db : Db} (hsame : SameLedger db (applyEntries env es D))
    (hflags : db.transactions = (applyEntries env es D).transactions) :
    (unwindEntries env D es db).transactions = D.transactions ↔
      ∀ e ∈ es, ∀ input ∈ e.tx.vin, ∀ p, D.spendTarget input = some p →
        flagAt D.transactions p ≠ some true := by
  have hknown : ∀ p, (flagAt D.transactions p).isSome = true → D.transactions.lookup p.1 ≠ none := by
    intro p hp hnone
    rw [flagAt, hnone] at hp
    cases hp
  have hflag : ∀ p, (flagAt D.transactions p).isSome = true →
      flagAt (unwindEntries env D es db).transactions p =
        if p ∈ touchedOutputs env D es then some false else flagAt D.transactions p := by
    intro p hp
    have hne := h.ne_of_known (hknown p hp)
    rw [flagAt_unwindEntries hne, hflags, flagAt_applyEntries hne]
    obtain ⟨b, hb⟩ := Option.isSome_iff_exists.mp hp
    split <;> simp [hb]
  constructor
  · intro heq e he input hinput p htarget hspent
    have hsome : (flagAt D.transactions p).isSome = true := by rw [hspent]; rfl
    have hmem := (h.mem_touchedOutputs (hknown p hsome)).mpr ⟨e, he, input, hinput, htarget⟩
    have hunspent := hflag p hsome
    rw [heq, if_pos hmem, hspent] at hunspent
    cases hunspent
  · intro hunspent
    have hrestored := sameLedger_unwindEntries h hsame
    refine transactions_ext hrestored.core fun p => ?_
    cases hp : flagAt D.transactions p with
    | none =>
        have hsome := flagAt_isSome_of_core (hrestored.core p.1)
        rw [hp] at hsome
        exact Option.not_isSome_iff_eq_none.mp (by simpa using hsome)
    | some b =>
        have hsome : (flagAt D.transactions p).isSome = true := by rw [hp]; rfl
        rw [hflag p hsome]
        by_cases hmem : p ∈ touchedOutputs env D es
        · obtain ⟨e, he, input, hinput, htarget⟩ :=
            (h.mem_touchedOutputs (hknown p hsome)).mp hmem
          have hb : b ≠ true := fun hb => hunspent e he input hinput p htarget (by rw [hp, hb])
          rw [if_pos hmem, Bool.eq_false_iff.mpr hb]
        · rw [if_neg hmem, hp]

end Chinet
