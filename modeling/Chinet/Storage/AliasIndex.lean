import Chinet.Storage.Aliases

/-!
# Popping an alias undoes putting it

The two alias maps are consistent when the set of an address holds exactly the
names whose last entry points at it, and neither map keeps empty values.
Putting an alias keeps them consistent, and on consistent maps popping it gives
back what was there before, for a new name as for an update.
-/

namespace Chinet

open Procedure FiniteStore

variable {env : Env}

/-! ## The names of an address -/

abbrev AddrToAlias := FiniteStore AccountPublicAddress (Finset ByteString)

def namesOf (addrToAlias : AddrToAlias) (addr : AccountPublicAddress) : Finset ByteString :=
  (addrToAlias.lookup addr).getD ∅

/-- No address is kept without a name. -/
def NoEmptySets (addrToAlias : AddrToAlias) : Prop :=
  ∀ addr names, addrToAlias.lookup addr = some names → names ≠ ∅

theorem addrToAlias_ext {idx idx' : AddrToAlias} (h : NoEmptySets idx) (h' : NoEmptySets idx')
    (hnames : ∀ addr, namesOf idx addr = namesOf idx' addr) : idx = idx' := by
  apply Finmap.ext_lookup
  intro addr
  have hnames := hnames addr
  simp only [namesOf] at hnames
  cases hlookup : idx.lookup addr with
  | none =>
      cases hlookup' : idx'.lookup addr with
      | none => rfl
      | some names =>
          rw [hlookup, hlookup'] at hnames
          exact absurd hnames.symm (h' addr names hlookup')
  | some names =>
      cases hlookup' : idx'.lookup addr with
      | none =>
          rw [hlookup, hlookup'] at hnames
          exact absurd hnames (h addr names hlookup)
      | some names' =>
          rw [hlookup, hlookup'] at hnames
          exact congrArg some hnames

theorem namesOf_insertAliasOfAddress (name : ByteString) (addr addr' : AccountPublicAddress)
    (idx : AddrToAlias) :
    namesOf (insertAliasOfAddress name addr idx) addr' =
      if addr' = addr then insert name (namesOf idx addr) else namesOf idx addr' := by
  rw [namesOf, insertAliasOfAddress, lookup_insert_ite]
  split <;> rfl

theorem namesOf_eraseAliasOfAddress (name : ByteString) (addr addr' : AccountPublicAddress)
    (idx : AddrToAlias) :
    namesOf (eraseAliasOfAddress name addr idx) addr' =
      if addr' = addr then (namesOf idx addr).erase name else namesOf idx addr' := by
  unfold eraseAliasOfAddress namesOf
  cases hlookup : idx.lookup addr with
  | none =>
      by_cases haddr : addr' = addr
      · subst haddr
        simp [hlookup]
      · simp [haddr]
  | some names =>
      by_cases haddr : addr' = addr
      · subst haddr
        by_cases hempty : names.erase name = ∅ <;> simp [hempty]
      · by_cases hempty : names.erase name = ∅ <;> simp [hempty, haddr]

theorem NoEmptySets.insertAliasOfAddress {idx : AddrToAlias} (h : NoEmptySets idx) (name : ByteString)
    (addr : AccountPublicAddress) : NoEmptySets (insertAliasOfAddress name addr idx) := by
  intro addr' names hlookup
  rw [Chinet.insertAliasOfAddress, lookup_insert_ite] at hlookup
  split at hlookup
  · rw [← Option.some.inj hlookup]
    exact Finset.insert_ne_empty _ _
  · exact h addr' names hlookup

theorem NoEmptySets.eraseAliasOfAddress {idx : AddrToAlias} (h : NoEmptySets idx) (name : ByteString)
    (addr : AccountPublicAddress) : NoEmptySets (eraseAliasOfAddress name addr idx) := by
  intro addr' names hlookup
  unfold Chinet.eraseAliasOfAddress at hlookup
  split at hlookup
  · exact h addr' names hlookup
  · split at hlookup
    · rw [lookup_erase_ite] at hlookup
      split at hlookup
      · cases hlookup
      · exact h addr' names hlookup
    · rename_i hne
      rw [lookup_insert_ite] at hlookup
      split at hlookup
      · rw [← Option.some.inj hlookup]
        exact hne
      · exact h addr' names hlookup

theorem erase_insertAliasOfAddress {idx : AddrToAlias} (h : NoEmptySets idx) {name : ByteString}
    {addr : AccountPublicAddress} (hname : name ∉ namesOf idx addr) :
    eraseAliasOfAddress name addr (insertAliasOfAddress name addr idx) = idx := by
  refine addrToAlias_ext ((h.insertAliasOfAddress name addr).eraseAliasOfAddress name addr) h ?_
  intro addr'
  rw [namesOf_eraseAliasOfAddress, namesOf_insertAliasOfAddress, namesOf_insertAliasOfAddress]
  by_cases haddr : addr' = addr
  · subst haddr
    simp [Finset.erase_insert hname]
  · simp [haddr]

theorem insert_eraseAliasOfAddress {idx : AddrToAlias} (h : NoEmptySets idx) {name : ByteString}
    {addr : AccountPublicAddress} (hname : name ∈ namesOf idx addr) :
    insertAliasOfAddress name addr (eraseAliasOfAddress name addr idx) = idx := by
  refine addrToAlias_ext ((h.eraseAliasOfAddress name addr).insertAliasOfAddress name addr) h ?_
  intro addr'
  rw [namesOf_insertAliasOfAddress, namesOf_eraseAliasOfAddress, namesOf_eraseAliasOfAddress]
  by_cases haddr : addr' = addr
  · subst haddr
    simp [Finset.insert_erase hname]
  · simp [haddr]

/-! ## Consistent maps -/

/-- The address a name points at. -/
def Db.aliasAddress (db : Db) (name : ByteString) : Option AccountPublicAddress :=
  (db.aliasHistory name).getLast?.map ExtraAliasEntryBase.mAddress

structure AliasConsistent (db : Db) : Prop where
  histories : ∀ name history, db.aliases.lookup name = some history → history ≠ []
  noEmptySets : NoEmptySets db.addrToAlias
  index : ∀ name addr, name ∈ namesOf db.addrToAlias addr ↔ db.aliasAddress name = some addr

theorem AliasConsistent.lookup_eq_none {db : Db} (h : AliasConsistent db) {name : ByteString}
    (hhistory : db.aliasHistory name = []) : db.aliases.lookup name = none := by
  rw [Db.aliasHistory] at hhistory
  cases hlookup : db.aliases.lookup name with
  | none => rfl
  | some history =>
      rw [hlookup, Option.getD_some] at hhistory
      exact absurd hhistory (h.histories name history hlookup)

/-- The two ways `put_alias_info` succeeds. -/
inductive PutAlias (ai : ExtraAliasEntry) (db : Db) : Db → Prop
  | registered (hnew : db.aliasHistory ai.mAlias = []) : PutAlias ai db { db with
      aliases := db.aliases.insert ai.mAlias [ai.toExtraAliasEntryBase]
      addrToAlias := insertAliasOfAddress ai.mAlias ai.mAddress db.addrToAlias }
  | updated {last : ExtraAliasEntryBase} (hlast : (db.aliasHistory ai.mAlias).getLast? = some last) :
      PutAlias ai db { db with
        aliases := db.aliases.insert ai.mAlias
          (db.aliasHistory ai.mAlias ++ [ai.toExtraAliasEntryBase])
        addrToAlias := insertAliasOfAddress ai.mAlias ai.mAddress
          (eraseAliasOfAddress ai.mAlias last.mAddress db.addrToAlias) }

theorem putAliasInfo_ok {ai : ExtraAliasEntry} {db db' : Db}
    (h : putAliasInfo env ai db = (.ok (), db')) : ai.mAlias ≠ [] ∧ PutAlias ai db db' := by
  unfold putAliasInfo at h
  split at h
  · cases h
  · rename_i hname
    refine ⟨hname, ?_⟩
    split at h
    · rename_i hnone
      cases h
      exact .registered (List.getLast?_eq_none_iff.mp hnone)
    · rename_i last hlast
      split at h
      · split at h
        · cases h
          exact .updated hlast
        · cases h
      · cases h

/-- What an update does to the history of each name. -/
theorem aliasAddress_insert {db : Db} {ai : ExtraAliasEntry} {history : List ExtraAliasEntryBase}
    {addrToAlias : AddrToAlias} (name : ByteString) :
    Db.aliasAddress { db with
        aliases := db.aliases.insert ai.mAlias (history ++ [ai.toExtraAliasEntryBase])
        addrToAlias } name =
      if name = ai.mAlias then some ai.mAddress else db.aliasAddress name := by
  rw [Db.aliasAddress, Db.aliasHistory, lookup_insert_ite]
  split
  · rw [Option.getD_some, List.getLast?_concat]
    rfl
  · rfl

theorem PutAlias.consistent {ai : ExtraAliasEntry} {db db' : Db} (hput : PutAlias ai db db')
    (h : AliasConsistent db) : AliasConsistent db' := by
  have hhistories : ∀ history : List ExtraAliasEntryBase, ∀ name found,
      (db.aliases.insert ai.mAlias (history ++ [ai.toExtraAliasEntryBase])).lookup name = some found →
      found ≠ [] := by
    intro history name found hfound
    rw [lookup_insert_ite] at hfound
    split at hfound
    · rw [← Option.some.inj hfound]
      simp
    · exact h.histories name found hfound
  cases hput with
  | registered hnew =>
      have haddress : db.aliasAddress ai.mAlias = none := by rw [Db.aliasAddress, hnew]; rfl
      refine ⟨hhistories [], h.noEmptySets.insertAliasOfAddress _ _, fun name addr => ?_⟩
      have hmem := h.index name addr
      rw [namesOf_insertAliasOfAddress, show [ai.toExtraAliasEntryBase] =
        [] ++ [ai.toExtraAliasEntryBase] from rfl, aliasAddress_insert]
      by_cases hname : name = ai.mAlias
      · subst hname
        rw [haddress] at hmem
        by_cases haddr : addr = ai.mAddress
        · subst haddr
          simp
        · have hne : ai.mAddress ≠ addr := fun heq => haddr heq.symm
          simp [haddr, hne, hmem]
      · by_cases haddr : addr = ai.mAddress
        · subst haddr
          simp [hname, hmem]
        · simp [hname, haddr, hmem]
  | @updated last hlast =>
      have haddress : db.aliasAddress ai.mAlias = some last.mAddress := by
        rw [Db.aliasAddress, hlast]
        rfl
      refine ⟨hhistories _, (h.noEmptySets.eraseAliasOfAddress _ _).insertAliasOfAddress _ _,
        fun name addr => ?_⟩
      have hmem := h.index name addr
      rw [namesOf_insertAliasOfAddress, namesOf_eraseAliasOfAddress, namesOf_eraseAliasOfAddress,
        aliasAddress_insert]
      by_cases hname : name = ai.mAlias
      · subst hname
        rw [haddress, Option.some.injEq] at hmem
        by_cases haddr : addr = ai.mAddress
        · subst haddr
          simp
        · have hne : ai.mAddress ≠ addr := fun heq => haddr heq.symm
          by_cases hold : addr = last.mAddress
          · subst hold
            simp [haddr, hne]
          · have hne' : last.mAddress ≠ addr := fun heq => hold heq.symm
            simp [haddr, hne, hold, hmem, hne']
      · by_cases haddr : addr = ai.mAddress
        · subst haddr
          by_cases hold : ai.mAddress = last.mAddress
          · rw [hold] at hmem
            simp [hname, hold, hmem]
          · simp [hname, hold, hmem]
        · by_cases hold : addr = last.mAddress
          · subst hold
            simp [hname, haddr, hmem]
          · simp [hname, haddr, hold, hmem]

/-- `pop_alias_info` on a history that ends with `last`. -/
theorem popAliasInfo_apply {ai : ExtraAliasEntry} {db : Db} {history : List ExtraAliasEntryBase}
    {last : ExtraAliasEntryBase} (hname : ai.mAlias ≠ [])
    (hhistory : db.aliasHistory ai.mAlias = history ++ [last])
    (hmem : ai.mAlias ∈ namesOf db.addrToAlias last.mAddress) :
    popAliasInfo ai db = (.ok (), { db with
      aliases := if history = [] then db.aliases.erase ai.mAlias
        else db.aliases.insert ai.mAlias history
      addrToAlias :=
        match history.getLast? with
        | none => eraseAliasOfAddress ai.mAlias last.mAddress db.addrToAlias
        | some previous => insertAliasOfAddress ai.mAlias previous.mAddress
            (eraseAliasOfAddress ai.mAlias last.mAddress db.addrToAlias) }) := by
  have hany : (db.addrToAlias.lookup last.mAddress).any (ai.mAlias ∉ ·) = false := by
    rw [namesOf] at hmem
    cases hlookup : db.addrToAlias.lookup last.mAddress with
    | none => rfl
    | some names =>
        rw [hlookup, Option.getD_some] at hmem
        simp [hmem]
  unfold popAliasInfo
  rw [if_neg hname, hhistory, List.getLast?_concat, List.dropLast_concat]
  dsimp only
  rw [hany, if_neg Bool.false_ne_true]
  cases hprevious : history.getLast? with
  | none =>
      rw [if_pos (List.getLast?_eq_none_iff.mp hprevious)]
  | some previous =>
      have hne : history ≠ [] := by
        rintro rfl
        cases hprevious
      rw [if_neg hne]

/-- Popping an alias that was just put. -/
theorem PutAlias.pop {ai : ExtraAliasEntry} {db db' current : Db} (hput : PutAlias ai db db')
    (h : AliasConsistent db) (hname : ai.mAlias ≠ []) (haliases : current.aliases = db'.aliases)
    (haddrs : current.addrToAlias = db'.addrToAlias) :
    popAliasInfo ai current = (.ok (), { current with
      aliases := db.aliases
      addrToAlias := db.addrToAlias }) := by
  cases hput with
  | registered hnew =>
      have hhistory : current.aliasHistory ai.mAlias = [] ++ [ai.toExtraAliasEntryBase] := by
        rw [Db.aliasHistory, haliases, lookup_insert_ite, if_pos rfl]
        rfl
      have hmem : ai.mAlias ∈ namesOf current.addrToAlias ai.mAddress := by
        rw [haddrs, namesOf_insertAliasOfAddress, if_pos rfl]
        exact Finset.mem_insert_self _ _
      have hfree : ai.mAlias ∉ namesOf db.addrToAlias ai.mAddress := by
        rw [h.index, Db.aliasAddress, hnew]
        simp
      rw [popAliasInfo_apply hname hhistory hmem, if_pos rfl, haliases, haddrs,
        erase_insert _ _ _ (h.lookup_eq_none hnew)]
      dsimp only
      rw [List.getLast?_nil]
      dsimp only
      rw [erase_insertAliasOfAddress h.noEmptySets hfree]
  | @updated last hlast =>
      have hhistory : current.aliasHistory ai.mAlias =
          db.aliasHistory ai.mAlias ++ [ai.toExtraAliasEntryBase] := by
        rw [Db.aliasHistory, haliases, lookup_insert_ite, if_pos rfl]
        rfl
      have hmem : ai.mAlias ∈ namesOf current.addrToAlias ai.mAddress := by
        rw [haddrs, namesOf_insertAliasOfAddress, if_pos rfl]
        exact Finset.mem_insert_self _ _
      have hold : ai.mAlias ∈ namesOf db.addrToAlias last.mAddress := by
        rw [h.index, Db.aliasAddress, hlast]
        rfl
      have hfree : ai.mAlias ∉
          namesOf (eraseAliasOfAddress ai.mAlias last.mAddress db.addrToAlias) ai.mAddress := by
        rw [namesOf_eraseAliasOfAddress]
        split
        · simp
        · rename_i hne
          rw [h.index, Db.aliasAddress, hlast]
          exact fun heq => hne (Option.some.inj heq).symm
      have hne : db.aliasHistory ai.mAlias ≠ [] := by
        intro hnil
        rw [hnil] at hlast
        cases hlast
      have hlookup : db.aliases.lookup ai.mAlias = some (db.aliasHistory ai.mAlias) := by
        rw [Db.aliasHistory] at hne ⊢
        cases hfound : db.aliases.lookup ai.mAlias with
        | none =>
            rw [hfound] at hne
            exact absurd rfl hne
        | some history => rfl
      have hback : (db.aliases.insert ai.mAlias
          (db.aliasHistory ai.mAlias ++ [ai.toExtraAliasEntryBase])).insert ai.mAlias
            (db.aliasHistory ai.mAlias) = db.aliases := by
        rw [Finmap.insert_insert]
        exact insert_of_lookup_eq _ _ _ hlookup
      rw [popAliasInfo_apply hname hhistory hmem, if_neg hne, haliases, haddrs, hback, hlast]
      dsimp only
      rw [erase_insertAliasOfAddress (h.noEmptySets.eraseAliasOfAddress _ _) hfree,
        insert_eraseAliasOfAddress h.noEmptySets hold]

/-! ## The alias of a transaction -/

/-- The alias maps after `process_blockchain_tx_extra`. -/
def putAlias (env : Env) (tx : Transaction) (db : Db) : Db :=
  match parseAndValidateTxExtra tx.toTransactionPrefix with
  | some { mAlias := some entry } => (putAliasInfo env entry db).2
  | _ => db

/-- The extra of the transaction is in order, and its alias entry can be put. -/
def AliasPuttable (env : Env) (tx : Transaction) (db : Db) : Prop :=
  ∃ info, parseAndValidateTxExtra tx.toTransactionPrefix = some info ∧
    ∀ entry, info.mAlias = some entry → (putAliasInfo env entry db).1 = .ok ()

theorem putAlias_eq (env : Env) (tx : Transaction) (db : Db) :
    putAlias env tx db = { db with
      aliases := (putAlias env tx db).aliases
      addrToAlias := (putAlias env tx db).addrToAlias } := by
  unfold putAlias
  split
  · unfold putAliasInfo
    split
    · rfl
    · split
      · rfl
      · split
        · split <;> rfl
        · rfl
  · rfl

/-- With an alias entry, `put_alias_info` succeeded. -/
theorem AliasPuttable.putAlias {tx : Transaction} {db : Db} (h : AliasPuttable env tx db) :
    (∃ entry, parseAndValidateTxExtra tx.toTransactionPrefix = some { mAlias := some entry } ∧
      entry.mAlias ≠ [] ∧ PutAlias entry db (putAlias env tx db)) ∨
    (parseAndValidateTxExtra tx.toTransactionPrefix = some { mAlias := none } ∧
      Chinet.putAlias env tx db = db) := by
  obtain ⟨⟨mAlias⟩, hparse, hput⟩ := h
  cases mAlias with
  | none => exact Or.inr ⟨hparse, by rw [Chinet.putAlias, hparse]⟩
  | some entry =>
      have hrun : putAliasInfo env entry db = (.ok (), (putAliasInfo env entry db).2) :=
        Prod.ext (hput entry rfl) rfl
      obtain ⟨hname, hentry⟩ := putAliasInfo_ok hrun
      refine Or.inl ⟨entry, hparse, hname, ?_⟩
      rw [Chinet.putAlias, hparse]
      exact hentry

theorem AliasPuttable.consistent {tx : Transaction} {db : Db} (h : AliasPuttable env tx db)
    (hconsistent : AliasConsistent db) : AliasConsistent (Chinet.putAlias env tx db) := by
  rcases h.putAlias with ⟨entry, _, _, hput⟩ | ⟨_, heq⟩
  · exact hput.consistent hconsistent
  · rw [heq]
    exact hconsistent

/-- `unprocess_blockchain_tx_extra` after `process_blockchain_tx_extra`. -/
theorem AliasPuttable.unprocess {tx : Transaction} {db current : Db} (h : AliasPuttable env tx db)
    (hconsistent : AliasConsistent db) (haliases : current.aliases = (Chinet.putAlias env tx db).aliases)
    (haddrs : current.addrToAlias = (Chinet.putAlias env tx db).addrToAlias) :
    unprocessBlockchainTxExtra tx current = (.ok (), { current with
      aliases := db.aliases
      addrToAlias := db.addrToAlias }) := by
  unfold unprocessBlockchainTxExtra
  rcases h.putAlias with ⟨entry, hparse, hname, hput⟩ | ⟨hparse, heq⟩
  · rw [hparse]
    exact hput.pop hconsistent hname haliases haddrs
  · rw [hparse]
    rw [heq] at haliases haddrs
    rw [← haliases, ← haddrs]
    rfl

end Chinet
