import Chinet.Storage.Inputs
import Chinet.Storage.Outputs

/-!
# The marks of an input

An input leaves marks in three containers: its key image, the spent height of a
multisig output, and the spent flag of the one output that a direct spend or a
multisig input names.  `markInputs` writes the marks of a list of inputs, or takes
them away, in closed form.  The add and the purge visitors do just that, as long
as they succeed.
-/

namespace Chinet

open Procedure FiniteStore

variable {env : Env}

/-! ## Spent flags -/

/-- The flag of an output, given by its transaction and its number. -/
def flagAt (transactions : FiniteStore Hash TransactionChainEntry) (p : Hash × Nat) : Option Bool :=
  (transactions.lookup p.1).bind fun entry => entry.spentFlags[p.2]?

/-- An entry without the values of its flags. -/
def TransactionChainEntry.core (entry : TransactionChainEntry) : Transaction × Nat × List Nat × Nat :=
  (entry.tx, entry.keeperBlockHeight, entry.globalOutputIndexes, entry.spentFlags.length)

/-- Entries are equal when their cores and their flags are. -/
theorem transactions_ext {ts ts' : FiniteStore Hash TransactionChainEntry}
    (hcore : ∀ t, (ts.lookup t).map TransactionChainEntry.core =
      (ts'.lookup t).map TransactionChainEntry.core)
    (hflag : ∀ p, flagAt ts p = flagAt ts' p) : ts = ts' := by
  apply Finmap.ext_lookup
  intro t
  have hcore := hcore t
  have hflag : ∀ n, flagAt ts (t, n) = flagAt ts' (t, n) := fun n => hflag (t, n)
  simp only [flagAt] at hflag
  cases hentry : ts.lookup t with
  | none =>
      rw [hentry] at hcore
      exact (Option.map_eq_none_iff.mp hcore.symm).symm
  | some entry =>
      obtain ⟨entry', hentry', hsame⟩ : ∃ entry', ts'.lookup t = some entry' ∧
          entry'.core = entry.core := by
        rw [hentry] at hcore
        exact Option.map_eq_some_iff.mp hcore.symm
      rw [hentry, hentry'] at hflag
      simp only [TransactionChainEntry.core, Prod.mk.injEq] at hsame
      have hflags : entry.spentFlags = entry'.spentFlags := List.ext_getElem? hflag
      rw [hentry']
      obtain ⟨tx, height, indexes, flags⟩ := entry
      obtain ⟨tx', height', indexes', flags'⟩ := entry'
      simp_all

def setFlag (spent : Bool) (p : Hash × Nat) (transactions : FiniteStore Hash TransactionChainEntry) :
    FiniteStore Hash TransactionChainEntry :=
  modifyAt p.1 (fun entry => { entry with spentFlags := entry.spentFlags.set p.2 spent }) transactions

def setFlags (spent : Bool) (ps : List (Hash × Nat))
    (transactions : FiniteStore Hash TransactionChainEntry) : FiniteStore Hash TransactionChainEntry :=
  ps.foldl (fun transactions p => setFlag spent p transactions) transactions

theorem core_setFlag (spent : Bool) (p : Hash × Nat) (ts : FiniteStore Hash TransactionChainEntry)
    (t : Hash) :
    ((setFlag spent p ts).lookup t).map TransactionChainEntry.core =
      (ts.lookup t).map TransactionChainEntry.core := by
  rw [setFlag, lookup_modifyAt]
  by_cases ht : t = p.1
  · subst ht
    rw [if_pos rfl]
    cases ts.lookup p.1 <;> simp [TransactionChainEntry.core]
  · rw [if_neg ht]

theorem flagAt_setFlag (spent : Bool) (p q : Hash × Nat)
    (ts : FiniteStore Hash TransactionChainEntry) :
    flagAt (setFlag spent p ts) q =
      if q = p then (flagAt ts p).map (fun _ => spent) else flagAt ts q := by
  rw [flagAt, setFlag, lookup_modifyAt, flagAt, flagAt]
  obtain ⟨t, n⟩ := p
  obtain ⟨t', n'⟩ := q
  by_cases ht : t' = t
  · subst ht
    simp only [if_true, Prod.mk.injEq, true_and]
    cases ts.lookup t' with
    | none => simp
    | some entry =>
        simp only [Option.map_some, Option.bind_some, List.getElem?_set]
        by_cases hn : n' = n
        · subst hn
          by_cases hlt : n' < entry.spentFlags.length
          · simp [hlt]
          · simp [hlt]
        · have hn' : n ≠ n' := fun h => hn h.symm
          simp [hn, hn']
  · simp [ht]

theorem core_setFlags (spent : Bool) (ps : List (Hash × Nat))
    (ts : FiniteStore Hash TransactionChainEntry) (t : Hash) :
    ((setFlags spent ps ts).lookup t).map TransactionChainEntry.core =
      (ts.lookup t).map TransactionChainEntry.core := by
  induction ps generalizing ts with
  | nil => rfl
  | cons p rest ih =>
      have hstep : setFlags spent (p :: rest) ts = setFlags spent rest (setFlag spent p ts) := rfl
      rw [hstep, ih, core_setFlag]

theorem flagAt_setFlags (spent : Bool) (ps : List (Hash × Nat))
    (ts : FiniteStore Hash TransactionChainEntry) (q : Hash × Nat) :
    flagAt (setFlags spent ps ts) q =
      if q ∈ ps then (flagAt ts q).map (fun _ => spent) else flagAt ts q := by
  induction ps generalizing ts with
  | nil => simp [setFlags]
  | cons p rest ih =>
      have hstep : setFlags spent (p :: rest) ts = setFlags spent rest (setFlag spent p ts) := rfl
      rw [hstep, ih, flagAt_setFlag]
      by_cases hq : q = p
      · subst hq
        cases flagAt ts q <;> simp
      · simp [hq]

/-- Marks are on known transactions only. -/
theorem lookup_setFlags_eq_none {spent : Bool} {ps : List (Hash × Nat)}
    {ts : FiniteStore Hash TransactionChainEntry} {t : Hash} :
    (setFlags spent ps ts).lookup t = none ↔ ts.lookup t = none := by
  have hcore := core_setFlags spent ps ts t
  rw [← Option.map_eq_none_iff (f := TransactionChainEntry.core), hcore, Option.map_eq_none_iff]

/-! ## The output an input marks -/

/-- A direct spend names one output. -/
def Db.directTarget (db : Db) (part : TxinToKey) : Option (Hash × Nat) :=
  match part.keyOffsets with
  | [ref] => resolveOutputRef db part.amount ref
  | _ => none

/-- The output whose flag an input changes. -/
def Db.spendTarget (db : Db) : Txin → Option (Hash × Nat)
  | .gen _ => none
  | .toKey input => db.directTarget input
  | .htlc input => db.directTarget input.toTxinToKey
  | .multisig input =>
      (db.multisigOuts.lookup input.multisigOutId).map fun ms => (ms.txId, ms.outNo)

def Txin.marksOutput : Txin → Bool
  | gen _ => false
  | toKey input => input.keyOffsets.length == 1
  | htlc input => input.keyOffsets.length == 1
  | multisig _ => true

/-- The output an input marks exists. -/
def TargetPresent (db : Db) (input : Txin) : Prop :=
  input.marksOutput = true → ∃ p, db.spendTarget input = some p ∧ (flagAt db.transactions p).isSome = true

/-! ## Marks -/

def markKeyImages (spent : Option Nat) (kImages : List KeyImage) (spentKeys : FiniteStore KeyImage Nat) :
    FiniteStore KeyImage Nat :=
  match spent with
  | some height => insertMany kImages height spentKeys
  | none => eraseMany kImages spentKeys

def setSpentHeight (height : Nat) (ms : MsOutputEntry) : MsOutputEntry :=
  { ms with spentHeight := height % 2 ^ 32 }

/-- The marks of the inputs at the height `spent`, or none of them. -/
def markInputs (spent : Option Nat) (inputs : List Txin) (db : Db) : Db :=
  { db with
    spentKeys := markKeyImages spent (inputs.filterMap Txin.keyImage?) db.spentKeys
    multisigOuts := modifyMany (inputs.filterMap Txin.multisigOutId?)
      (setSpentHeight (spent.getD 0)) db.multisigOuts
    transactions := setFlags spent.isSome (inputs.filterMap db.spendTarget) db.transactions }

theorem setSpentHeight_idem (height : Nat) (ms : MsOutputEntry) :
    setSpentHeight height (setSpentHeight height ms) = setSpentHeight height ms := rfl

theorem lookup_markInputs_multisigOuts (spent : Option Nat) (inputs : List Txin) (db : Db) (id : Hash) :
    (markInputs spent inputs db).multisigOuts.lookup id =
      if id ∈ inputs.filterMap Txin.multisigOutId? then
        (db.multisigOuts.lookup id).map (setSpentHeight (spent.getD 0))
      else db.multisigOuts.lookup id :=
  lookup_modifyMany _ (setSpentHeight_idem _) _ _

/-- Marks do not move outputs. -/
theorem spendTarget_markInputs (spent : Option Nat) (inputs : List Txin) (db : Db) (input : Txin) :
    (markInputs spent inputs db).spendTarget input = db.spendTarget input := by
  cases input with
  | gen height => rfl
  | toKey input => rfl
  | htlc input => rfl
  | multisig input =>
      simp only [Db.spendTarget, lookup_markInputs_multisigOuts]
      split
      · cases db.multisigOuts.lookup input.multisigOutId <;> rfl
      · rfl

theorem targetPresent_markInputs {spent : Option Nat} {inputs : List Txin} {db : Db} {input : Txin} :
    TargetPresent (markInputs spent inputs db) input ↔ TargetPresent db input := by
  have hflag : ∀ p, (flagAt (markInputs spent inputs db).transactions p).isSome =
      (flagAt db.transactions p).isSome := fun p => by
    simp only [markInputs, flagAt_setFlags]
    split <;> simp
  simp only [TargetPresent, spendTarget_markInputs, hflag]

theorem markInputs_cons (spent : Option Nat) (input : Txin) (rest : List Txin) (db : Db) :
    markInputs spent (input :: rest) db = markInputs spent rest (markInputs spent [input] db) := by
  have htargets : rest.filterMap (markInputs spent [input] db).spendTarget =
      rest.filterMap db.spendTarget :=
    List.filterMap_congr fun i _ => spendTarget_markInputs spent [input] db i
  have hkeys : markKeyImages spent ((input :: rest).filterMap Txin.keyImage?) db.spentKeys =
      markKeyImages spent (rest.filterMap Txin.keyImage?)
        (markKeyImages spent ([input].filterMap Txin.keyImage?) db.spentKeys) := by
    simp only [List.filterMap_cons, List.filterMap_nil]
    cases input.keyImage? <;> cases spent <;> rfl
  have hms : modifyMany ((input :: rest).filterMap Txin.multisigOutId?)
      (setSpentHeight (spent.getD 0)) db.multisigOuts =
      modifyMany (rest.filterMap Txin.multisigOutId?) (setSpentHeight (spent.getD 0))
        (modifyMany ([input].filterMap Txin.multisigOutId?) (setSpentHeight (spent.getD 0))
          db.multisigOuts) := by
    simp only [List.filterMap_cons, List.filterMap_nil]
    cases input.multisigOutId? <;> rfl
  have hflags : setFlags spent.isSome ((input :: rest).filterMap db.spendTarget) db.transactions =
      setFlags spent.isSome (rest.filterMap db.spendTarget)
        (setFlags spent.isSome ([input].filterMap db.spendTarget) db.transactions) := by
    simp only [List.filterMap_cons, List.filterMap_nil]
    cases db.spendTarget input <;> rfl
  unfold markInputs at htargets ⊢
  dsimp only at htargets ⊢
  rw [htargets, hkeys, hms, hflags]

/-! ## The visitors -/

theorem updateSpentTxFlags_ok_iff {txId : Hash} {n : Nat} {spent : Bool} {db db' : Db} :
    updateSpentTxFlags txId n spent db = (.ok (), db') ↔
      (flagAt db.transactions (txId, n)).isSome = true ∧
        db' = { db with transactions := setFlag spent (txId, n) db.transactions } := by
  unfold updateSpentTxFlags flagAt setFlag modifyAt
  cases db.transactions.lookup txId with
  | none => simp
  | some entry =>
      by_cases hn : n < entry.spentFlags.length
      · simp [hn, eq_comm]
      · simp [hn]

theorem updateSpentTxFlagsForInput_ok_iff {amount : UInt64} {ref : TxoutRef} {spent : Bool}
    {db db' : Db} :
    updateSpentTxFlagsForInput amount ref spent db = (.ok (), db') ↔
      ∃ p, resolveOutputRef db amount ref = some p ∧ (flagAt db.transactions p).isSome = true ∧
        db' = { db with transactions := setFlag spent p db.transactions } := by
  cases ref with
  | refById txId n =>
      simp only [updateSpentTxFlagsForInput, updateSpentTxFlags_ok_iff, resolveOutputRef,
        Option.some.injEq, exists_eq_left']
  | globalIndex index =>
      simp only [updateSpentTxFlagsForInput, gets_bind, resolveOutputRef]
      cases (db.outputs amount)[index.toNat]? with
      | none => simp
      | some entry => simp [updateSpentTxFlags_ok_iff]

/-- A direct spend, with the mark in closed form. -/
theorem updateDirectSpend_ok_iff {part : TxinToKey} {spent : Bool} {db db' : Db} :
    updateDirectSpend part spent db = (.ok (), db') ↔
      (part.keyOffsets.length = 1 →
        ∃ p, db.directTarget part = some p ∧ (flagAt db.transactions p).isSome = true) ∧
      db' = { db with
        transactions := setFlags spent (db.directTarget part).toList db.transactions } := by
  unfold updateDirectSpend Db.directTarget
  rcases part.keyOffsets with _ | ⟨ref, _ | ⟨ref', rest⟩⟩
  · constructor
    · intro h
      cases h
      exact ⟨nofun, rfl⟩
    · rintro ⟨_, rfl⟩
      rfl
  · simp only [updateSpentTxFlagsForInput_ok_iff, List.length_singleton, true_implies]
    constructor
    · rintro ⟨p, hp, hflag, rfl⟩
      exact ⟨⟨p, hp, hflag⟩, by rw [hp]; rfl⟩
    · rintro ⟨⟨p, hp, hflag⟩, rfl⟩
      exact ⟨p, hp, hflag, by rw [hp]; rfl⟩
  · constructor
    · intro h
      cases h
      exact ⟨by simp, rfl⟩
    · rintro ⟨_, rfl⟩
      rfl

theorem updateSpentTxFlagsForMultisig_ok_iff {multisigId : Hash} {height : Nat} {db db' : Db} :
    updateSpentTxFlagsForMultisig multisigId height db = (.ok (), db') ↔
      ∃ ms, db.multisigOuts.lookup multisigId = some ms ∧
        (flagAt db.transactions (ms.txId, ms.outNo)).isSome = true ∧
        db' = { db with
          multisigOuts := modifyAt multisigId (setSpentHeight height) db.multisigOuts
          transactions := setFlag (height ≠ 0) (ms.txId, ms.outNo) db.transactions } := by
  unfold updateSpentTxFlagsForMultisig modifyAt
  rw [gets_bind]
  cases db.multisigOuts.lookup multisigId with
  | none => simp
  | some ms =>
      simp only [modify_bind, updateSpentTxFlags_ok_iff, Option.some.injEq, exists_eq_left']
      rfl

/-- What the add visitor asks of an input. -/
structure InputAddable (env : Env) (db : Db) (input : Txin) : Prop where
  fresh : ∀ ki, input.keyImage? = some ki → db.spentKeys.lookup ki = none
  htlcAllowed : input.isHtlc = true → env.isAfterHardfork3Zone db.size = true
  target : TargetPresent db input

theorem inputAddable_gen {db : Db} (height : Nat) : InputAddable env db (.gen height) :=
  ⟨nofun, nofun, nofun⟩

theorem inputAddable_multisig {db : Db} {input : TxinMultisig} {p : Hash × Nat}
    (htarget : db.spendTarget (.multisig input) = some p)
    (hflag : (flagAt db.transactions p).isSome = true) : InputAddable env db (.multisig input) :=
  ⟨nofun, nofun, fun _ => ⟨p, htarget, hflag⟩⟩

theorem addKeyInput_ok_iff {height : Nat} {part : TxinToKey} {db db' : Db} :
    addKeyInput height part db = (.ok (), db') ↔
      db.spentKeys.lookup part.kImage = none ∧
      (part.keyOffsets.length = 1 →
        ∃ p, db.directTarget part = some p ∧ (flagAt db.transactions p).isSome = true) ∧
      db' = { db with
        spentKeys := db.spentKeys.insert part.kImage height
        transactions := setFlags true (db.directTarget part).toList db.transactions } := by
  unfold addKeyInput
  simp only [check_bind_ok_iff, require_eq_ok, Option.isNone_iff_eq_none, modify_bind,
    updateDirectSpend_ok_iff, exists_const]
  rfl

/-- `add_transaction_input_visitor` in closed form.  The genesis block has no
multisig input that it could accept. -/
theorem addTransactionInput_ok_iff {height : Nat} {input : Txin} {db db' : Db}
    (hheight : input.multisigOutId?.isSome = true → height ≠ 0) :
    addTransactionInput env height input db = (.ok (), db') ↔
      InputAddable env db input ∧ db' = markInputs (some height) [input] db := by
  have hkey : ∀ part : TxinToKey, (input.keyImage? = some part.kImage) →
      (input.multisigOutId? = none) → db.spendTarget input = db.directTarget part →
      (input.marksOutput = true ↔ part.keyOffsets.length = 1) →
      ((addKeyInput height part db = (.ok (), db')) ↔
        ((∀ ki, input.keyImage? = some ki → db.spentKeys.lookup ki = none) ∧
          TargetPresent db input) ∧ db' = markInputs (some height) [input] db) := by
    intro part hki hms htarget hmarks
    have hmarked : markInputs (some height) [input] db = { db with
        spentKeys := db.spentKeys.insert part.kImage height
        transactions := setFlags true (db.directTarget part).toList db.transactions } := by
      unfold markInputs
      simp only [List.filterMap_cons, List.filterMap_nil, hki, hms, htarget]
      cases db.directTarget part <;> rfl
    rw [addKeyInput_ok_iff, hmarked, TargetPresent, htarget, hmarks, hki]
    simp only [Option.some.injEq, forall_eq', and_assoc]
  cases input with
  | gen h =>
      simp only [addTransactionInput, pure_apply, Prod.mk.injEq, true_and]
      constructor
      · rintro rfl
        exact ⟨inputAddable_gen h, rfl⟩
      · rintro ⟨_, rfl⟩
        rfl
  | toKey input =>
      have hstep := hkey input rfl rfl rfl (by simp [Txin.marksOutput])
      rw [addTransactionInput, hstep]
      constructor
      · rintro ⟨⟨hfresh, htarget⟩, hdb⟩
        exact ⟨⟨hfresh, fun hhtlc => absurd hhtlc Bool.false_ne_true, htarget⟩, hdb⟩
      · rintro ⟨haddable, hdb⟩
        exact ⟨⟨haddable.fresh, haddable.target⟩, hdb⟩
  | htlc input =>
      have hstep := hkey input.toTxinToKey rfl rfl rfl (by simp [Txin.marksOutput])
      simp only [addTransactionInput, check_bind_ok_iff, require_eq_ok, exists_const, hstep]
      constructor
      · rintro ⟨hzone, ⟨hfresh, htarget⟩, hdb⟩
        exact ⟨⟨hfresh, fun _ => hzone, htarget⟩, hdb⟩
      · rintro ⟨haddable, hdb⟩
        exact ⟨haddable.htlcAllowed rfl, ⟨haddable.fresh, haddable.target⟩, hdb⟩
  | multisig input =>
      have hne : height ≠ 0 := hheight rfl
      rw [addTransactionInput, updateSpentTxFlagsForMultisig_ok_iff]
      constructor
      · rintro ⟨ms, hms, hflag, rfl⟩
        have htarget : db.spendTarget (.multisig input) = some (ms.txId, ms.outNo) := by
          rw [Db.spendTarget, hms, Option.map_some]
        refine ⟨inputAddable_multisig htarget hflag, ?_⟩
        unfold markInputs
        simp only [List.filterMap_cons, List.filterMap_nil, htarget, hne, ne_eq, not_false_eq_true,
          decide_true]
        rfl
      · rintro ⟨haddable, rfl⟩
        obtain ⟨p, htarget, hflag⟩ := haddable.target rfl
        obtain ⟨ms, hms, rfl⟩ := Option.map_eq_some_iff.mp htarget
        refine ⟨ms, hms, hflag, ?_⟩
        unfold markInputs
        simp only [List.filterMap_cons, List.filterMap_nil, htarget, hne, ne_eq, not_false_eq_true,
          decide_true]
        rfl

/-- The inputs of a transaction that can be added one after the other. -/
structure InputsAddable (env : Env) (db : Db) (inputs : List Txin) : Prop where
  each : ∀ input ∈ inputs, InputAddable env db input
  nodup : (inputs.filterMap Txin.keyImage?).Nodup

theorem lookup_markInputs_spentKeys (height : Nat) (inputs : List Txin) (db : Db) (ki : KeyImage) :
    (markInputs (some height) inputs db).spentKeys.lookup ki =
      if ki ∈ inputs.filterMap Txin.keyImage? then some height else db.spentKeys.lookup ki :=
  lookup_insertMany _ _ _ _

theorem lookup_unmarkInputs_spentKeys (inputs : List Txin) (db : Db) (ki : KeyImage) :
    (markInputs none inputs db).spentKeys.lookup ki =
      if ki ∈ inputs.filterMap Txin.keyImage? then none else db.spentKeys.lookup ki :=
  lookup_eraseMany _ _ _

/-- Whether the marks of `input` are compatible with those of another one. -/
theorem inputAddable_markInputs {height : Nat} {input other : Txin} {db : Db} :
    InputAddable env (markInputs (some height) [input] db) other ↔
      InputAddable env db other ∧ ∀ ki, other.keyImage? = some ki → input.keyImage? ≠ some ki := by
  have hlookup : ∀ ki, (markInputs (some height) [input] db).spentKeys.lookup ki = none ↔
      db.spentKeys.lookup ki = none ∧ input.keyImage? ≠ some ki := by
    intro ki
    have hmem : ki ∈ [input].filterMap Txin.keyImage? ↔ input.keyImage? = some ki := by simp
    rw [lookup_markInputs_spentKeys]
    by_cases hki : input.keyImage? = some ki
    · rw [if_pos (hmem.mpr hki)]
      simp [hki]
    · rw [if_neg (fun h => hki (hmem.mp h))]
      simp [hki]
  constructor
  · rintro ⟨hfresh, hzone, htarget⟩
    exact ⟨⟨fun ki hki => ((hlookup ki).mp (hfresh ki hki)).1, hzone,
      targetPresent_markInputs.mp htarget⟩, fun ki hki => ((hlookup ki).mp (hfresh ki hki)).2⟩
  · rintro ⟨⟨hfresh, hzone, htarget⟩, hne⟩
    exact ⟨fun ki hki => (hlookup ki).mpr ⟨hfresh ki hki, hne ki hki⟩, hzone,
      targetPresent_markInputs.mpr htarget⟩

theorem inputsAddable_nil {db : Db} : InputsAddable env db [] :=
  ⟨nofun, List.nodup_nil⟩

theorem inputsAddable_cons (height : Nat) {input : Txin} {rest : List Txin} {db : Db} :
    InputsAddable env db (input :: rest) ↔
      InputAddable env db input ∧ InputsAddable env (markInputs (some height) [input] db) rest := by
  have hnodup : ((input :: rest).filterMap Txin.keyImage?).Nodup ↔
      (∀ other ∈ rest, ∀ ki, other.keyImage? = some ki → input.keyImage? ≠ some ki) ∧
        (rest.filterMap Txin.keyImage?).Nodup := by
    cases hki : input.keyImage? with
    | none => simp [hki]
    | some ki =>
        rw [List.filterMap_cons, hki, List.nodup_cons]
        refine and_congr_left fun _ => ?_
        rw [List.mem_filterMap]
        constructor
        · rintro hnot other hother ki' hki' heq
          exact hnot ⟨other, hother, by rw [hki', ← Option.some.inj heq]⟩
        · rintro hne ⟨other, hother, hki'⟩
          exact hne other hother ki hki' rfl
  constructor
  · rintro ⟨heach, hkis⟩
    obtain ⟨hne, hrest⟩ := hnodup.mp hkis
    refine ⟨heach input List.mem_cons_self, fun other hother => ?_, hrest⟩
    exact inputAddable_markInputs.mpr
      ⟨heach other (List.mem_cons_of_mem input hother), hne other hother⟩
  · rintro ⟨hinput, heach, hrest⟩
    have hboth := fun other hother => inputAddable_markInputs.mp (heach other hother)
    refine ⟨fun other hother => ?_, hnodup.mpr ⟨fun other hother => (hboth other hother).2, hrest⟩⟩
    rcases List.mem_cons.mp hother with rfl | hother
    · exact hinput
    · exact (hboth other hother).1

/-- The loop of `add_transaction_from_block` over the inputs, in closed form. -/
theorem addInputs_ok_iff {height : Nat} {inputs : List Txin} {db db' : Db}
    (hheight : ∀ input ∈ inputs, input.multisigOutId?.isSome = true → height ≠ 0) :
    forEach (addTransactionInput env height) inputs db = (.ok (), db') ↔
      InputsAddable env db inputs ∧ db' = markInputs (some height) inputs db := by
  induction inputs generalizing db with
  | nil =>
      rw [forEach_nil]
      constructor
      · intro h
        cases h
        exact ⟨inputsAddable_nil, rfl⟩
      · rintro ⟨_, rfl⟩
        rfl
  | cons input rest ih =>
      have hrest := fun i hi => hheight i (List.mem_cons_of_mem input hi)
      rw [forEach_cons, bind_ok_iff, inputsAddable_cons height,
        markInputs_cons (some height) input rest db]
      simp only [addTransactionInput_ok_iff (hheight input List.mem_cons_self), ih hrest]
      constructor
      · rintro ⟨_, _, ⟨hinput, rfl⟩, haddable, rfl⟩
        exact ⟨⟨hinput, haddable⟩, rfl⟩
      · rintro ⟨⟨hinput, haddable⟩, rfl⟩
        exact ⟨(), _, ⟨hinput, rfl⟩, haddable, rfl⟩

/-- What the purge visitor asks of an input. -/
structure InputPurgeable (db : Db) (input : Txin) : Prop where
  spent : ∀ ki, input.keyImage? = some ki → (db.spentKeys.lookup ki).isSome = true
  target : TargetPresent db input

/-- A strict purge of an input. -/
theorem purgeInput_apply {input : Txin} {db : Db} (h : InputPurgeable db input) :
    purgeInput true input db = (.ok (), markInputs none [input] db) := by
  have hkey : ∀ part : TxinToKey, (input.keyImage? = some part.kImage) →
      (input.multisigOutId? = none) → db.spendTarget input = db.directTarget part →
      (part.keyOffsets.length = 1 → input.marksOutput = true) →
      purgeKeyInput true part db = (.ok (), markInputs none [input] db) := by
    intro part hki hms htarget hmarks
    have hmarked : markInputs none [input] db = { db with
        spentKeys := db.spentKeys.erase part.kImage
        transactions := setFlags false (db.directTarget part).toList db.transactions } := by
      unfold markInputs
      simp only [List.filterMap_cons, List.filterMap_nil, hki, hms, htarget]
      cases db.directTarget part <;> rfl
    have hpresent : part.keyOffsets.length = 1 →
        ∃ p, db.directTarget part = some p ∧ (flagAt db.transactions p).isSome = true := by
      intro hlen
      rw [← htarget]
      exact h.target (hmarks hlen)
    unfold purgeKeyInput
    simp only [gets_bind, modify_bind, check_bind_ok_iff, require_eq_ok, h.spent _ hki,
      Bool.true_or, true_and, exists_const, hmarked]
    exact updateDirectSpend_ok_iff.mpr ⟨hpresent, rfl⟩
  cases input with
  | gen height => rfl
  | toKey input => exact hkey input rfl rfl rfl (by simp [Txin.marksOutput])
  | htlc input => exact hkey input.toTxinToKey rfl rfl rfl (by simp [Txin.marksOutput])
  | multisig input =>
      obtain ⟨p, htarget, hflag⟩ := h.target rfl
      obtain ⟨ms, hms, rfl⟩ := Option.map_eq_some_iff.mp htarget
      rw [purgeInput, updateSpentTxFlagsForMultisig_ok_iff]
      refine ⟨ms, hms, hflag, ?_⟩
      unfold markInputs
      simp only [List.filterMap_cons, List.filterMap_nil, htarget]
      rfl

theorem inputPurgeable_unmarkInputs {input other : Txin} {db : Db} (h : InputPurgeable db other)
    (hne : ∀ ki, other.keyImage? = some ki → input.keyImage? ≠ some ki) :
    InputPurgeable (markInputs none [input] db) other where
  spent := by
    intro ki hki
    rw [lookup_unmarkInputs_spentKeys, if_neg]
    · exact h.spent ki hki
    · simpa [List.mem_filterMap] using hne ki hki
  target := targetPresent_markInputs.mpr h.target

/-- A strict purge of all inputs. -/
theorem purgeInputs_apply {inputs : List Txin} {db : Db}
    (hnodup : (inputs.filterMap Txin.keyImage?).Nodup)
    (h : ∀ input ∈ inputs, InputPurgeable db input) :
    forEach (purgeInput true) inputs db = (.ok (), markInputs none inputs db) := by
  induction inputs generalizing db with
  | nil => rfl
  | cons input rest ih =>
      have hrest : (rest.filterMap Txin.keyImage?).Nodup := by
        rw [List.filterMap_cons] at hnodup
        split at hnodup
        · exact hnodup
        · exact (List.nodup_cons.mp hnodup).2
      have hne : ∀ other ∈ rest, ∀ ki, other.keyImage? = some ki → input.keyImage? ≠ some ki := by
        intro other hother ki hki heq
        rw [List.filterMap_cons, heq, List.nodup_cons] at hnodup
        exact hnodup.1 (List.mem_filterMap.mpr ⟨other, hother, hki⟩)
      rw [forEach_cons, bind_of_ok (purgeInput_apply (h input List.mem_cons_self)),
        markInputs_cons none input rest db]
      exact ih hrest fun other hother => inputPurgeable_unmarkInputs
        (h other (List.mem_cons_of_mem input hother)) (hne other hother)

/-- `purge_transaction_keyimages_from_blockchain` in its strict mode. -/
theorem purgeTransactionKeyimages_apply {tx : Transaction} {db : Db}
    (hnodup : tx.keyImages.Nodup) (h : ∀ input ∈ tx.vin, InputPurgeable db input) :
    purgeTransactionKeyimages tx true db = (.ok (), markInputs none tx.vin db) :=
  purgeInputs_apply hnodup h

end Chinet
