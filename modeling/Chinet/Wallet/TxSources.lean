import Chinet.Lib.SortedInsert
import Chinet.Wallet.Sending

/-!
# Rings

`prepare_tx_sources` and `sweep_below` build the sources of a transaction alike: the daemon is
asked for one output more than a ring needs, the wallet's own output is left out of the answer,
as many others as needed are taken in the order of their global indexes, and the real output goes
to the place of its index.  They differ in when they find an answer too small.
-/

namespace Chinet

/-- `out_entry` of the answer to a request for random outputs. -/
structure OutEntry where
  globalAmountIndex : UInt64
  outKey : PublicKey
deriving DecidableEq

abbrev OutputEntry := TxoutRef × PublicKey

/-- `tx_source_entry`; what multisig and HTLC inputs add to it is left out. -/
structure TxSourceEntry where
  outputs : List OutputEntry
  realOutput : Nat
  realOutTxKey : PublicKey
  realOutputInTxIndex : Nat
  amount : Nat
  transferIndex : Nat
deriving DecidableEq

/-! ## One source -/

/-- The sort of `std::list` by the global index, which is stable. -/
def sortOuts (outs : List OutEntry) : List OutEntry :=
  outs.mergeSort fun a b => a.globalAmountIndex.toNat ≤ b.globalAmountIndex.toNat

/-- The loop over the sorted answer, with the outputs so far. -/
def pasteMixins (fakeOutputsCount : Nat) (own : UInt64) :
    List OutEntry → List OutputEntry → List OutputEntry
  | [], outputs => outputs
  | oe :: rest, outputs =>
      if own = oe.globalAmountIndex then pasteMixins fakeOutputsCount own rest outputs
      else
        let outputs := outputs ++ [(.globalIndex oe.globalAmountIndex, oe.outKey)]
        if outputs.length ≥ fakeOutputsCount then outputs
        else pasteMixins fakeOutputsCount own rest outputs

/-- The position of the first output by global index whose index is not below the real one. -/
def placeOfReal (own : UInt64) (outputs : List OutputEntry) : Nat :=
  outputs.findIdx fun a =>
    match a.1 with
    | .globalIndex i => decide (own ≤ i)
    | .refById _ _ => false

namespace IndexedTransfer

/-- `m_global_output_index`, a `uint64_t`. -/
def ownIndex (td : IndexedTransfer) : UInt64 := UInt64.ofNat td.globalOutputIndex

/-- The key of the real output in `prepare_tx_sources`. -/
def preparedKey (td : IndexedTransfer) : Except SendError PublicKey :=
  match td.output?.map TxOut.target with
  | some (.toKey out) => .ok out.key
  | some (.htlc out) => .ok out.pkeyRefund
  | _ => .error .wallet

/-- The key of the real output in `sweep_below`, where another target is a bad cast. -/
def sweptKey (td : IndexedTransfer) : Except SendError PublicKey :=
  match td.output?.map TxOut.target with
  | some (.toKey out) => .ok out.key
  | _ => .error .other

end IndexedTransfer

def txSource (fakeOutputsCount transferIndex : Nat) (td : IndexedTransfer) (outs : List OutEntry)
    (key : PublicKey) : TxSourceEntry :=
  let mixins := pasteMixins fakeOutputsCount td.ownIndex (sortOuts outs) []
  { outputs := mixins.insertIdx (placeOfReal td.ownIndex mixins) (.globalIndex td.ownIndex, key)
    realOutput := placeOfReal td.ownIndex mixins
    realOutTxKey := getTxPubKeyFromExtra td.tx.toTransactionPrefix
    realOutputInTxIndex := td.internalOutputIndex
    amount := td.amount
    transferIndex }

/-! ## The sources of a transaction -/

/-- The loop over the selected transfers; without decoys there are no answers. -/
def txSources (fakeOutputsCount : Nat) (keyOf : IndexedTransfer → Except SendError PublicKey)
    (transfers : List IndexedTransfer) :
    List Nat → List (List OutEntry) → Except SendError (List TxSourceEntry)
  | [], _ => .ok []
  | i :: rest, outs =>
      match transfers[i]? with
      | none => .error .other
      | some td => do
          let key ← keyOf td
          let sources ← txSources fakeOutputsCount keyOf transfers rest outs.tail
          return txSource fakeOutputsCount i td (outs.headD []) key :: sources

/-- The answer of the daemon, if each amount has enough outputs. -/
def checkedAnswer (enough : Nat) (selected : List Nat) (answer : Except SendError (List (List OutEntry))) :
    Except SendError (List (List OutEntry)) :=
  match answer with
  | .error e => .error e
  | .ok outs =>
      if outs.length = selected.length ∧ ∀ o ∈ outs, enough ≤ o.length then .ok outs
      else .error .wallet

namespace Sources

/-- The random outputs of `prepare_tx_sources`: each amount needs one more than a ring takes, a
`size_t` that wraps. -/
def randomOutputs (fakeOutputsCount : Nat) (transfers : List IndexedTransfer) (selected : List Nat)
    (answer : Except SendError (List (List OutEntry))) : Except SendError (List (List OutEntry)) :=
  if fakeOutputsCount = 0 then .ok []
  else if ∀ i ∈ selected, (transfers[i]?).any fun td => td.internalOutputIndex < td.tx.vout.length then
    checkedAnswer ((fakeOutputsCount + 1) % 2 ^ 64) selected answer
  else .error .wallet

/-- The random outputs of `sweep_below`. -/
def sweptRandomOutputs (fakeOutsCount : Nat) (selected : List Nat)
    (answer : Except SendError (List (List OutEntry))) : Except SendError (List (List OutEntry)) :=
  if fakeOutsCount = 0 then .ok [] else checkedAnswer fakeOutsCount selected answer

/-- What `prepare_tx_sources` hears from the daemon. -/
structure Answers where
  getRandomOutputs : Except SendError (List (List OutEntry))
  fetchTxGlobalIndixes : Except SendError (Nat → Nat)

/-- `prepare_tx_sources` for transfers that are selected, with the sources that it makes. -/
def prepareTxSources (c : Answers) (fakeOutputsCount : Nat) (selectedIndicies : List Nat) :
    SendProcedure (List TxSourceEntry) := do
  let s ← Procedure.gets fun s : SendingWallet => s
  let outs ← SendingWallet.called
    (randomOutputs fakeOutputsCount s.transfers selectedIndicies c.getRandomOutputs)
  let found ← SendingWallet.called c.fetchTxGlobalIndixes
  Procedure.modify
    (SendingWallet.onWallet (SendingWallet.prefetchGlobalIndicies selectedIndicies found))
  let s ← Procedure.gets fun s : SendingWallet => s
  SendingWallet.called
    (txSources fakeOutputsCount IndexedTransfer.preparedKey s.transfers selectedIndicies outs)

/-- The inputs of `try_construct_tx` in `sweep_below`, for the first `stIndexUpperBoundary`
transfers. -/
def sweptSources (fakeOutsCount : Nat) (transfers : List IndexedTransfer) (selectedTransfers : List Nat)
    (outs : List (List OutEntry)) (stIndexUpperBoundary : Nat) : Except SendError (List TxSourceEntry) :=
  if stIndexUpperBoundary ≤ selectedTransfers.length then
    txSources fakeOutsCount IndexedTransfer.sweptKey transfers
      (selectedTransfers.take stIndexUpperBoundary) outs
  else .error .wallet

end Sources

/-! ## What a ring promises -/

def OutEntry.entry (oe : OutEntry) : OutputEntry := (.globalIndex oe.globalAmountIndex, oe.outKey)

def entryIndex (o : OutputEntry) : Nat :=
  match o.1 with
  | .globalIndex i => i.toNat
  | .refById _ _ => 0

def IsByIndex (o : OutputEntry) : Prop := ∃ i, o.1 = .globalIndex i

/-- A ring of the promised size: the outputs rise strictly by their global indexes, the real one is
among them once, at its position and with its key, and the others are as many as were asked for. -/
structure RingComplete (fakeOutputsCount : Nat) (td : IndexedTransfer) (key : PublicKey)
    (src : TxSourceEntry) : Prop where
  byIndex : ∀ o ∈ src.outputs, IsByIndex o
  ascending : src.outputs.Pairwise fun a b => entryIndex a < entryIndex b
  real : src.outputs[src.realOutput]? = some (.globalIndex td.ownIndex, key)
  once : src.outputs.countP (fun o => o.1 = .globalIndex td.ownIndex) = 1
  others : src.outputs.countP (fun o => o.1 ≠ .globalIndex td.ownIndex) = fakeOutputsCount

/-- The source of a transfer is a ring of the promised size around its output. -/
def SourceComplete (fakeOutputsCount : Nat) (keyOf : IndexedTransfer → Except SendError PublicKey)
    (transfers : List IndexedTransfer) (i : Nat) (src : TxSourceEntry) : Prop :=
  ∃ td key, transfers[i]? = some td ∧ keyOf td = .ok key ∧ RingComplete fakeOutputsCount td key src

/-! ## One ring -/

section Ring

variable {fakeOutputsCount : Nat} {own : UInt64} {outs : List OutEntry}

def notOwn (own : UInt64) (oe : OutEntry) : Bool := own != oe.globalAmountIndex

theorem pasteMixins_eq {outputs : List OutputEntry} (h : outputs.length < fakeOutputsCount) :
    pasteMixins fakeOutputsCount own outs outputs =
      outputs ++ ((outs.filter (notOwn own)).map OutEntry.entry).take
        (fakeOutputsCount - outputs.length) := by
  induction outs generalizing outputs with
  | nil => simp [pasteMixins]
  | cons oe rest ih =>
      rw [pasteMixins]
      by_cases hown : own = oe.globalAmountIndex
      · rw [if_pos hown, ih h, List.filter_cons_of_neg (by simp [notOwn, hown])]
      · rw [if_neg hown, List.filter_cons_of_pos (by simp [notOwn, hown]), List.map_cons]
        obtain ⟨room, hroom⟩ := Nat.exists_eq_add_of_lt h
        have hleft : fakeOutputsCount - outputs.length = room + 1 := by omega
        rw [hleft, List.take_succ_cons]
        dsimp only
        split
        · rename_i hfull
          rw [List.length_append, List.length_singleton] at hfull
          have hzero : room = 0 := by omega
          rw [hzero, List.take_zero]
          rfl
        · rename_i hmore
          rw [List.length_append, List.length_singleton] at hmore
          rw [ih (by rw [List.length_append, List.length_singleton]; omega), List.length_append,
            List.length_singleton, List.append_assoc]
          have hsame : fakeOutputsCount - (outputs.length + 1) = room := by omega
          rw [hsame]
          rfl

/-- The decoys of a ring. -/
def mixinsOf (fakeOutputsCount : Nat) (own : UInt64) (outs : List OutEntry) : List OutputEntry :=
  (((sortOuts outs).filter (notOwn own)).map OutEntry.entry).take fakeOutputsCount

theorem pasteMixins_start (h : fakeOutputsCount = 0 → outs = []) :
    pasteMixins fakeOutputsCount own (sortOuts outs) [] = mixinsOf fakeOutputsCount own outs := by
  by_cases hnone : fakeOutputsCount = 0
  · rw [h hnone]
    simp [sortOuts, pasteMixins, mixinsOf]
  · rw [pasteMixins_eq (Nat.pos_of_ne_zero hnone), List.nil_append, List.length_nil, Nat.sub_zero]
    rfl

theorem mem_mixinsOf {o : OutputEntry} (h : o ∈ mixinsOf fakeOutputsCount own outs) :
    ∃ oe ∈ outs, own ≠ oe.globalAmountIndex ∧ o = oe.entry := by
  obtain ⟨oe, hoe, rfl⟩ := List.mem_map.mp (List.mem_of_mem_take h)
  obtain ⟨hmem, hnot⟩ := List.mem_filter.mp hoe
  exact ⟨oe, List.mem_mergeSort.mp hmem, by simpa [notOwn] using hnot, rfl⟩

theorem sortOuts_pairwise (hdistinct : (outs.map OutEntry.globalAmountIndex).Nodup) :
    (sortOuts outs).Pairwise fun a b => entryIndex a.entry < entryIndex b.entry := by
  have hperm : (sortOuts outs).Perm outs := List.mergeSort_perm _ _
  have hsorted : (sortOuts outs).Pairwise fun a b =>
      decide (a.globalAmountIndex.toNat ≤ b.globalAmountIndex.toNat) = true := by
    apply List.pairwise_mergeSort
    · intro a b c hab hbc
      simp only [decide_eq_true_eq] at hab hbc ⊢
      exact hab.trans hbc
    · intro a b
      simp only [Bool.or_eq_true, decide_eq_true_eq]
      exact Nat.le_total _ _
  have hdifferent : (sortOuts outs).Pairwise fun a b =>
      a.globalAmountIndex ≠ b.globalAmountIndex := by
    apply List.pairwise_map.mp
    exact (hperm.map OutEntry.globalAmountIndex).nodup_iff.mpr hdistinct
  refine (hsorted.and hdifferent).imp ?_
  intro a b h
  obtain ⟨hle, hne⟩ := h
  exact lt_of_le_of_ne (of_decide_eq_true hle) fun heq => hne (UInt64.toNat_inj.mp heq)

theorem mixinsOf_pairwise (hdistinct : (outs.map OutEntry.globalAmountIndex).Nodup) :
    (mixinsOf fakeOutputsCount own outs).Pairwise fun a b => entryIndex a < entryIndex b := by
  apply List.Pairwise.sublist (List.take_sublist _ _)
  apply List.pairwise_map.mpr
  exact (sortOuts_pairwise hdistinct).sublist List.filter_sublist

theorem length_mixinsOf :
    (mixinsOf fakeOutputsCount own outs).length =
      min fakeOutputsCount (outs.countP (notOwn own)) := by
  have hperm : (sortOuts outs).Perm outs := List.mergeSort_perm _ _
  rw [mixinsOf, List.length_take, List.length_map, ← List.countP_eq_length_filter,
    hperm.countP_eq]

/-- The place of the real output by the keys of the entries. -/
theorem placeOfReal_eq {outputs : List OutputEntry} (h : ∀ o ∈ outputs, IsByIndex o) :
    placeOfReal own outputs = SortedInsert.place entryIndex own.toNat outputs := by
  induction outputs with
  | nil => rfl
  | cons o rest ih =>
      obtain ⟨i, hi⟩ := h o List.mem_cons_self
      have hrest := ih fun o' ho' => h o' (List.mem_cons_of_mem _ ho')
      rw [placeOfReal, SortedInsert.place] at hrest ⊢
      rw [List.findIdx_cons, List.findIdx_cons, hrest, entryIndex, hi]
      rfl

/-- All but at most one of the outputs of an answer are others than the real one. -/
theorem countP_notOwn (hdistinct : (outs.map OutEntry.globalAmountIndex).Nodup) :
    outs.countP (notOwn own) + (if own ∈ outs.map OutEntry.globalAmountIndex then 1 else 0) =
      outs.length := by
  rw [List.length_eq_countP_add_countP (notOwn own) (l := outs)]
  congr 1
  have hcount : outs.countP (fun oe => decide ¬ notOwn own oe = true) =
      (outs.map OutEntry.globalAmountIndex).count own := by
    rw [List.count_eq_countP, List.countP_map]
    apply List.countP_congr
    intro oe _
    simp only [notOwn, bne_iff_ne, ne_eq, not_not, decide_eq_true_eq, Function.comp_apply,
      beq_iff_eq]
    exact eq_comm
  rw [hcount]
  split
  · rename_i hmem
    exact (List.count_eq_one_of_mem hdistinct hmem).symm
  · rename_i hnot
    exact (List.count_eq_zero_of_not_mem hnot).symm

/-- The decoys of a ring are by index, and others than the real output. -/
theorem mixinsOf_others {o : OutputEntry} (ho : o ∈ mixinsOf fakeOutputsCount own outs) :
    IsByIndex o ∧ o.1 ≠ .globalIndex own ∧ entryIndex o ≠ own.toNat := by
  obtain ⟨oe, -, hne, rfl⟩ := mem_mixinsOf ho
  refine ⟨⟨_, rfl⟩, ?_, ?_⟩
  · intro h
    exact hne (TxoutRef.globalIndex.inj h).symm
  · intro h
    exact hne (UInt64.toNat_inj.mp h).symm

/-- The real output is inserted among the decoys by its index. -/
theorem txSource_eq {td : IndexedTransfer} {key : PublicKey} {i : Nat}
    (hnone : fakeOutputsCount = 0 → outs = []) :
    txSource fakeOutputsCount i td outs key = {
      outputs := (mixinsOf fakeOutputsCount td.ownIndex outs).insertIdx
        (SortedInsert.place entryIndex td.ownIndex.toNat
          (mixinsOf fakeOutputsCount td.ownIndex outs)) (.globalIndex td.ownIndex, key)
      realOutput := SortedInsert.place entryIndex td.ownIndex.toNat
        (mixinsOf fakeOutputsCount td.ownIndex outs)
      realOutTxKey := getTxPubKeyFromExtra td.tx.toTransactionPrefix
      realOutputInTxIndex := td.internalOutputIndex
      amount := td.amount
      transferIndex := i } := by
  have hplace := @placeOfReal_eq td.ownIndex (mixinsOf fakeOutputsCount td.ownIndex outs)
    fun o ho => (mixinsOf_others ho).1
  rw [txSource, pasteMixins_start hnone, hplace]

/-- The real output stands at its position, with its key. -/
theorem txSource_real {td : IndexedTransfer} {key : PublicKey} {i : Nat}
    (hnone : fakeOutputsCount = 0 → outs = []) :
    (txSource fakeOutputsCount i td outs key).outputs[
        (txSource fakeOutputsCount i td outs key).realOutput]? =
      some (.globalIndex td.ownIndex, key) := by
  rw [txSource_eq hnone]
  exact SortedInsert.getElem?_insertIdx_place entryIndex
    ((.globalIndex td.ownIndex, key) : OutputEntry) _

/-- A ring is complete exactly if the answer has enough outputs besides the real one. -/
theorem txSource_complete_iff {td : IndexedTransfer} {key : PublicKey} {i : Nat}
    (hnone : fakeOutputsCount = 0 → outs = [])
    (hdistinct : (outs.map OutEntry.globalAmountIndex).Nodup) :
    RingComplete fakeOutputsCount td key (txSource fakeOutputsCount i td outs key) ↔
      fakeOutputsCount ≤ outs.countP (notOwn td.ownIndex) := by
  have hsource := @txSource_eq fakeOutputsCount outs td key i hnone
  have hperm := SortedInsert.perm_insertIdx_place entryIndex
    ((.globalIndex td.ownIndex, key) : OutputEntry) (mixinsOf fakeOutputsCount td.ownIndex outs)
  change ((mixinsOf fakeOutputsCount td.ownIndex outs).insertIdx
    (SortedInsert.place entryIndex td.ownIndex.toNat (mixinsOf fakeOutputsCount td.ownIndex outs))
    (.globalIndex td.ownIndex, key)).Perm _ at hperm
  have hothers : (txSource fakeOutputsCount i td outs key).outputs.countP
      (fun o => o.1 ≠ .globalIndex td.ownIndex) =
        min fakeOutputsCount (outs.countP (notOwn td.ownIndex)) := by
    rw [hsource, hperm.countP_eq, List.countP_cons_of_neg (by simp), ← length_mixinsOf,
      List.countP_eq_length]
    intro o ho
    exact decide_eq_true (mixinsOf_others ho).2.1
  constructor
  · intro h
    have hcount := h.others
    rw [hothers] at hcount
    omega
  · intro h
    exact {
      byIndex := by
        intro o ho
        rw [hsource] at ho
        rcases List.mem_cons.mp (hperm.mem_iff.mp ho) with rfl | ho
        · exact ⟨_, rfl⟩
        · exact (mixinsOf_others ho).1
      ascending := by
        rw [hsource]
        exact SortedInsert.pairwise_insertIdx_place entryIndex (mixinsOf_pairwise hdistinct)
          fun o ho => (mixinsOf_others ho).2.2
      real := txSource_real hnone
      once := by
        rw [hsource, hperm.countP_eq, List.countP_cons_of_pos (by simp)]
        have hzero : (mixinsOf fakeOutputsCount td.ownIndex outs).countP
            (fun o => o.1 = .globalIndex td.ownIndex) = 0 := by
          rw [List.countP_eq_zero]
          intro o ho
          simpa using (mixinsOf_others ho).2.1
        rw [hzero]
      others := by
        rw [hothers]
        omega }

end Ring

/-! ## All rings of a transaction -/

/-- The indexes of an answer are distinct. -/
def DistinctOuts (outs : List OutEntry) : Prop := (outs.map OutEntry.globalAmountIndex).Nodup

/-- No answer consists of exactly the outputs that were asked for with the wallet's own among them. -/
def NoAnswerIsShort (fakeOutputsCount : Nat) (transfers : List IndexedTransfer) (selected : List Nat)
    (outs : List (List OutEntry)) : Prop :=
  ∀ (n i : Nat) (td : IndexedTransfer) (o : List OutEntry),
    selected[n]? = some i → transfers[i]? = some td → outs[n]? = some o →
      ¬ (o.length = fakeOutputsCount ∧ td.ownIndex ∈ o.map OutEntry.globalAmountIndex)

/-- Every answer has enough outputs besides the wallet's own. -/
def OthersSuffice (fakeOutputsCount : Nat) (transfers : List IndexedTransfer) (selected : List Nat)
    (outs : List (List OutEntry)) : Prop :=
  ∀ (n i : Nat) (td : IndexedTransfer) (o : List OutEntry),
    selected[n]? = some i → transfers[i]? = some td → outs[n]? = some o →
      fakeOutputsCount ≤ o.countP (notOwn td.ownIndex)

section Rings

variable {fakeOutputsCount : Nat} {keyOf : IndexedTransfer → Except SendError PublicKey}
  {transfers : List IndexedTransfer} {selected : List Nat} {outs : List (List OutEntry)}
  {sources : List TxSourceEntry} {answer : Except SendError (List (List OutEntry))}

theorem txSources_cons_ok {i : Nat} (h : txSources fakeOutputsCount keyOf transfers (i :: selected) outs =
    .ok sources) : ∃ td key rest, transfers[i]? = some td ∧ keyOf td = .ok key ∧
      txSources fakeOutputsCount keyOf transfers selected outs.tail = .ok rest ∧
      sources = txSource fakeOutputsCount i td (outs.headD []) key :: rest := by
  rw [txSources] at h
  cases htd : transfers[i]? with
  | none =>
      rw [htd] at h
      cases h
  | some td =>
      rw [htd] at h
      dsimp only at h
      cases hkey : keyOf td with
      | error e =>
          rw [hkey] at h
          cases h
      | ok key =>
          rw [hkey] at h
          cases hrest : txSources fakeOutputsCount keyOf transfers selected outs.tail with
          | error e =>
              rw [hrest] at h
              cases h
          | ok rest =>
              rw [hrest] at h
              cases h
              exact ⟨td, key, rest, rfl, hkey, rfl, rfl⟩

/-- The rings are complete exactly if each answer has enough outputs besides the real one. -/
theorem txSources_complete_iff (hnone : fakeOutputsCount = 0 → outs = [])
    (hlength : fakeOutputsCount ≠ 0 → selected.length ≤ outs.length)
    (hdistinct : ∀ o ∈ outs, DistinctOuts o)
    (h : txSources fakeOutputsCount keyOf transfers selected outs = .ok sources) :
    List.Forall₂ (SourceComplete fakeOutputsCount keyOf transfers) selected sources ↔
      OthersSuffice fakeOutputsCount transfers selected outs := by
  unfold OthersSuffice
  induction selected generalizing outs sources with
  | nil =>
      cases h
      simp
  | cons i selected ih =>
      obtain ⟨td, key, rest, htd, hkey, hrest, rfl⟩ := txSources_cons_ok h
      have hheadNone : fakeOutputsCount = 0 → outs.headD [] = [] := fun hzero => by rw [hnone hzero]; rfl
      have hheadDistinct : DistinctOuts (outs.headD []) := by
        cases outs with
        | nil => exact List.nodup_nil
        | cons o outs => exact hdistinct o List.mem_cons_self
      have hsource : SourceComplete fakeOutputsCount keyOf transfers i
          (txSource fakeOutputsCount i td (outs.headD []) key) ↔
            fakeOutputsCount ≤ (outs.headD []).countP (notOwn td.ownIndex) := by
        have hring := @txSource_complete_iff fakeOutputsCount (outs.headD []) td key i hheadNone
          hheadDistinct
        rw [← hring]
        constructor
        · intro ⟨td', key', htd', hkey', hcomplete⟩
          cases htd.symm.trans htd'
          cases hkey.symm.trans hkey'
          exact hcomplete
        · exact fun hcomplete => ⟨td, key, htd, hkey, hcomplete⟩
      have htail := ih (fun hzero => by rw [hnone hzero]; rfl)
        (fun hpos => by
          have := hlength hpos
          rw [List.length_cons] at this
          rw [List.length_tail]
          omega)
        (fun o ho => hdistinct o (List.mem_of_mem_tail ho)) hrest
      rw [List.forall₂_cons, hsource, htail]
      cases outs with
      | nil =>
          have hzero : fakeOutputsCount = 0 := by
            by_contra hpos
            have := hlength hpos
            simp at this
          simp [hzero]
      | cons o outs =>
          constructor
          · rintro ⟨hhead, hrest⟩ n i' td' o' hi' htd' ho'
            cases n with
            | zero =>
                cases hi'
                cases ho'
                cases htd.symm.trans htd'
                exact hhead
            | succ n => exact hrest n i' td' o' hi' htd' ho'
          · intro hall
            exact ⟨hall 0 i td o rfl htd rfl, fun n i' td' o' hi' htd' ho' =>
              hall (n + 1) i' td' o' hi' htd' ho'⟩

/-- What a source says of its transfer. -/
structure IsSourceOf (keyOf : IndexedTransfer → Except SendError PublicKey)
    (td : IndexedTransfer) (i : Nat) (src : TxSourceEntry) : Prop where
  transferIndex : src.transferIndex = i
  amount : src.amount = td.amount
  realOutTxKey : src.realOutTxKey = getTxPubKeyFromExtra td.tx.toTransactionPrefix
  realOutputInTxIndex : src.realOutputInTxIndex = td.internalOutputIndex
  key : ∃ key, keyOf td = .ok key ∧
    src.outputs[src.realOutput]? = some (.globalIndex td.ownIndex, key)

/-- The sources are those of the selected transfers, in this order. -/
theorem txSources_ok (hnone : fakeOutputsCount = 0 → outs = [])
    (h : txSources fakeOutputsCount keyOf transfers selected outs = .ok sources) :
    List.Forall₂ (fun i src => ∃ td, transfers[i]? = some td ∧ IsSourceOf keyOf td i src)
      selected sources := by
  induction selected generalizing outs sources with
  | nil =>
      cases h
      exact List.Forall₂.nil
  | cons i selected ih =>
      obtain ⟨td, key, rest, htd, hkey, hrest, rfl⟩ := txSources_cons_ok h
      have hhead : fakeOutputsCount = 0 → outs.headD [] = [] := fun hzero => by rw [hnone hzero]; rfl
      have htail : fakeOutputsCount = 0 → outs.tail = [] := fun hzero => by rw [hnone hzero]; rfl
      exact List.Forall₂.cons ⟨td, htd, rfl, rfl, rfl, rfl, key, hkey, txSource_real hhead⟩
        (ih htail hrest)

/-- Where every selected transfer has a key the sources are made. -/
theorem txSources_exists (hkeys : ∀ i ∈ selected, ∃ td key, transfers[i]? = some td ∧ keyOf td = .ok key) :
    ∃ sources, txSources fakeOutputsCount keyOf transfers selected outs = .ok sources := by
  induction selected generalizing outs with
  | nil => exact ⟨[], rfl⟩
  | cons i selected ih =>
      obtain ⟨td, key, htd, hkey⟩ := hkeys i List.mem_cons_self
      obtain ⟨rest, hrest⟩ := @ih outs.tail fun j hj => hkeys j (List.mem_cons_of_mem _ hj)
      refine ⟨txSource fakeOutputsCount i td (outs.headD []) key :: rest, ?_⟩
      rw [txSources, htd]
      dsimp only
      rw [hkey, hrest]
      rfl

theorem checkedAnswer_ok {enough : Nat} (h : checkedAnswer enough selected answer = .ok outs) :
    answer = .ok outs ∧ outs.length = selected.length ∧ ∀ o ∈ outs, enough ≤ o.length := by
  unfold checkedAnswer at h
  split at h
  · cases h
  · split at h
    · rename_i hchecks
      cases h
      exact ⟨rfl, hchecks⟩
    · cases h

/-- An answer is large enough for a ring unless it is short. -/
theorem enough_iff {o : List OutEntry} {td : IndexedTransfer} (hdistinct : DistinctOuts o)
    (henough : fakeOutputsCount ≤ o.length) :
    fakeOutputsCount ≤ o.countP (notOwn td.ownIndex) ↔
      ¬ (o.length = fakeOutputsCount ∧ td.ownIndex ∈ o.map OutEntry.globalAmountIndex) := by
  have hcount := @countP_notOwn td.ownIndex o hdistinct
  by_cases hmem : td.ownIndex ∈ o.map OutEntry.globalAmountIndex
  · rw [if_pos hmem] at hcount
    simp only [hmem, and_true]
    omega
  · rw [if_neg hmem] at hcount
    simp only [hmem, and_false, not_false_eq_true, iff_true]
    omega

namespace Sources

/-- With one output to spare, every ring of `prepare_tx_sources` is complete; where the number to
ask for has wrapped, just those are whose answers have enough. -/
theorem prepareTxSources_complete_iff {c : Answers} {s s' : SendingWallet}
    (hdistinct : ∀ outs, c.getRandomOutputs = .ok outs → ∀ o ∈ outs, DistinctOuts o)
    (h : prepareTxSources c fakeOutputsCount selected s = (.ok sources, s')) :
    List.Forall₂ (SourceComplete fakeOutputsCount IndexedTransfer.preparedKey s'.transfers)
        selected sources ↔
      fakeOutputsCount + 1 < 2 ^ 64 ∨ ∀ outs, c.getRandomOutputs = .ok outs →
        OthersSuffice fakeOutputsCount s'.transfers selected outs := by
  unfold prepareTxSources at h
  rw [Procedure.gets_bind] at h
  obtain ⟨outs, s₁, hasked, hafter⟩ := Procedure.bind_ok_iff.mp h
  obtain ⟨houts, -⟩ := SendingWallet.called_ok hasked
  obtain ⟨found, s₂, hfound, hrest⟩ := Procedure.bind_ok_iff.mp hafter
  rw [Procedure.modify_bind, Procedure.gets_bind] at hrest
  obtain ⟨hsources, hs'⟩ := SendingWallet.called_ok hrest
  rw [← hs'] at hsources
  unfold randomOutputs at houts
  split at houts
  · rename_i hzero
    cases houts
    refine iff_of_true ?_ (Or.inl (by rw [hzero]; decide))
    apply (txSources_complete_iff (fun _ => rfl) (fun hpos => absurd hzero hpos)
      (fun o ho => absurd ho List.not_mem_nil) hsources).mpr
    intro n i td o _ _ ho
    cases ho
  · split at houts
    · rename_i hpos _
      obtain ⟨hanswer, hlength, henough⟩ := checkedAnswer_ok houts
      have houtsDistinct := hdistinct outs hanswer
      rw [txSources_complete_iff (fun hzero => absurd hzero hpos) (fun _ => hlength.ge)
        houtsDistinct hsources, hanswer]
      constructor
      · intro hsuffice
        right
        rintro outs' ⟨⟩
        exact hsuffice
      · rintro (hsmall | hsuffice)
        · intro n i td o _ _ ho
          have hmem := List.mem_of_getElem? ho
          have hone := henough o hmem
          rw [Nat.mod_eq_of_lt hsmall] at hone
          apply (enough_iff (houtsDistinct o hmem) (by omega)).mpr
          intro hshort
          omega
        · exact hsuffice outs rfl
    · cases houts

/-- The rings of `sweep_below` are complete exactly if no answer is short. -/
theorem sweptSources_complete_iff {stIndexUpperBoundary : Nat}
    (hdistinct : ∀ outs, answer = .ok outs → ∀ o ∈ outs, DistinctOuts o)
    (houts : sweptRandomOutputs fakeOutputsCount selected answer = .ok outs)
    (hsources : sweptSources fakeOutputsCount transfers selected outs stIndexUpperBoundary = .ok sources) :
    List.Forall₂ (SourceComplete fakeOutputsCount IndexedTransfer.sweptKey transfers)
        (selected.take stIndexUpperBoundary) sources ↔
      NoAnswerIsShort fakeOutputsCount transfers (selected.take stIndexUpperBoundary) outs := by
  unfold sweptSources at hsources
  split at hsources
  · unfold sweptRandomOutputs at houts
    split at houts
    · rename_i hzero
      cases houts
      rw [txSources_complete_iff (fun _ => rfl) (fun hpos => absurd hzero hpos)
        (fun o ho => absurd ho List.not_mem_nil) hsources]
      simp [NoAnswerIsShort, OthersSuffice]
    · rename_i hpos
      obtain ⟨hanswer, hlength, henough⟩ := checkedAnswer_ok houts
      have houtsDistinct := hdistinct outs hanswer
      have htaken : (selected.take stIndexUpperBoundary).length ≤ outs.length := by
        rw [List.length_take, hlength]
        exact Nat.min_le_right _ _
      rw [txSources_complete_iff (fun hzero => absurd hzero hpos) (fun _ => htaken) houtsDistinct
        hsources]
      unfold NoAnswerIsShort
      -- One answer at a time, since each one has passed the check of its own.
      apply forall₄_congr
      intro n i td o
      apply imp_congr_right
      intro _
      apply imp_congr_right
      intro _
      apply imp_congr_right
      intro ho
      have hmem := List.mem_of_getElem? ho
      exact enough_iff (houtsDistinct o hmem) (henough o hmem)
  · cases hsources

/-- `prepare_tx_sources` is what sending calls, once its sources are forgotten. -/
theorem prepareTxSources_eq_calls (c : Answers) (p : SendingWallet.PrepareCalls)
    (fakeOutputsCount : Nat) (selected : List Nat) (s : SendingWallet) :
    ∃ made : Except SendError (List TxSourceEntry),
      prepareTxSources c fakeOutputsCount selected s =
        (made, (SendingWallet.prepareTxSources {
          p with
          getRandomOutputs := (randomOutputs fakeOutputsCount s.transfers selected
            c.getRandomOutputs).map fun _ => ()
          fetchTxGlobalIndixes := c.fetchTxGlobalIndixes
          makeSources := made.map fun _ => () } fakeOutputsCount selected s).2) := by
  have hasked : SendingWallet.calledIf (fakeOutputsCount ≠ 0) ((randomOutputs fakeOutputsCount
      s.transfers selected c.getRandomOutputs).map fun _ => ()) =
        SendingWallet.called ((randomOutputs fakeOutputsCount s.transfers selected
          c.getRandomOutputs).map fun _ => ()) := by
    by_cases hzero : fakeOutputsCount = 0
    · simp [hzero, randomOutputs, SendingWallet.calledIf, Except.map, SendingWallet.called]
    · simp [hzero, SendingWallet.calledIf]
  unfold prepareTxSources SendingWallet.prepareTxSources
  rw [Procedure.gets_bind]
  dsimp only
  rw [hasked]
  cases randomOutputs fakeOutputsCount s.transfers selected c.getRandomOutputs with
  | error e => exact ⟨.error e, rfl⟩
  | ok outs =>
      cases c.fetchTxGlobalIndixes with
      | error e => exact ⟨.error e, rfl⟩
      | ok found =>
          generalize ht : s.onWallet (SendingWallet.prefetchGlobalIndicies selected found) = t
          have hrun : (SendingWallet.called (.ok outs) >>= fun outs => do
              let found ← SendingWallet.called (.ok found)
              Procedure.modify
                (SendingWallet.onWallet (SendingWallet.prefetchGlobalIndicies selected found))
              let s ← Procedure.gets fun s : SendingWallet => s
              SendingWallet.called (txSources fakeOutputsCount IndexedTransfer.preparedKey
                s.transfers selected outs)) s =
              SendingWallet.called (txSources fakeOutputsCount IndexedTransfer.preparedKey
                t.transfers selected outs) t := by
            rw [← ht]
            rfl
          refine ⟨txSources fakeOutputsCount IndexedTransfer.preparedKey t.transfers selected outs, ?_⟩
          rw [hrun]
          cases txSources fakeOutputsCount IndexedTransfer.preparedKey t.transfers selected outs with
          | error e =>
              rw [← ht]
              rfl
          | ok sources =>
              rw [← ht]
              rfl

/-- For distinct answers, `prepare_tx_sources` builds complete rings exactly if the number that it
asks for does not wrap or every answer that it takes has enough, and `sweep_below` exactly if no
answer that it takes is short. -/
theorem rings_complete_iff (fakeOutputsCount : UInt64) (selected : List Nat)
    (answer : Except SendError (List (List OutEntry)))
    (hdistinct : ∀ outs, answer = .ok outs → ∀ o ∈ outs, DistinctOuts o) :
    (∀ found s s' sources,
      prepareTxSources ⟨answer, found⟩ fakeOutputsCount.toNat selected s = (.ok sources, s') →
        (List.Forall₂
            (SourceComplete fakeOutputsCount.toNat IndexedTransfer.preparedKey s'.transfers)
            selected sources ↔
          fakeOutputsCount.toNat + 1 < 2 ^ 64 ∨ ∀ outs, answer = .ok outs →
            OthersSuffice fakeOutputsCount.toNat s'.transfers selected outs)) ∧
      ∀ transfers outs stIndexUpperBoundary sources,
        sweptRandomOutputs fakeOutputsCount.toNat selected answer = .ok outs →
        sweptSources fakeOutputsCount.toNat transfers selected outs stIndexUpperBoundary =
            .ok sources →
          (List.Forall₂ (SourceComplete fakeOutputsCount.toNat IndexedTransfer.sweptKey transfers)
              (selected.take stIndexUpperBoundary) sources ↔
            NoAnswerIsShort fakeOutputsCount.toNat transfers (selected.take stIndexUpperBoundary)
              outs) := by
  constructor
  · intro found s s' sources h
    exact prepareTxSources_complete_iff hdistinct h
  · intro transfers outs stIndexUpperBoundary sources houts hsources
    exact sweptSources_complete_iff hdistinct houts hsources

/-- A transfer of 10 whose output is the seventh of its amount. -/
def seventhOutput : IndexedTransfer where
  toTransferDetails := TransfersWallet.sampleTransfer 10
  globalOutputIndex := 7
  keyImage := 5
  spentHeight := 0

theorem rings_complete_iff_sample :
    List.Forall₂ (SourceComplete 1 IndexedTransfer.sweptKey [seventhOutput]) [0]
      [txSource 1 0 seventhOutput [⟨9, 3⟩, ⟨7, 1⟩] 1] := by
  have hdistinct : ∀ outs, Except.ok (ε := SendError) [[⟨9, 3⟩, ⟨7, 1⟩]] = .ok outs →
      ∀ o ∈ outs, DistinctOuts o := by
    intro outs houts o ho
    cases houts
    cases List.mem_singleton.mp ho
    unfold DistinctOuts
    decide
  apply ((rings_complete_iff 1 [0] (.ok [[⟨9, 3⟩, ⟨7, 1⟩]]) hdistinct).2 [seventhOutput] _ 1 _
    rfl rfl).mpr
  intro n i td o _ _ ho hshort
  cases List.mem_singleton.mp (List.mem_of_getElem? ho)
  exact absurd hshort.1 (by decide)

/-- One decoy is asked for, and the answer is the wallet's own output: the ring has no decoy. -/
theorem rings_complete_ring_of_one :
    ¬ ∀ (fakeOutputsCount : UInt64) (transfers : List IndexedTransfer) (selected : List Nat)
      (outs : List (List OutEntry)) (stIndexUpperBoundary : Nat) (sources : List TxSourceEntry),
      (∀ o ∈ outs, DistinctOuts o) →
      sweptRandomOutputs fakeOutputsCount.toNat selected (.ok outs) = .ok outs →
      sweptSources fakeOutputsCount.toNat transfers selected outs stIndexUpperBoundary =
          .ok sources →
        List.Forall₂ (SourceComplete fakeOutputsCount.toNat IndexedTransfer.sweptKey transfers)
          (selected.take stIndexUpperBoundary) sources := by
  intro hclaim
  have hdistinct : ∀ o ∈ [[(⟨7, 1⟩ : OutEntry)]], DistinctOuts o := by
    intro o ho
    cases List.mem_singleton.mp ho
    unfold DistinctOuts
    decide
  have hring := hclaim 1 [seventhOutput] [0] [[⟨7, 1⟩]] 1 _ hdistinct rfl rfl
  obtain ⟨hsource, -⟩ := List.forall₂_cons.mp hring
  obtain ⟨td, key, htd, hkey, hcomplete⟩ := hsource
  cases htd
  cases hkey
  exact absurd hcomplete.others (by decide +kernel)

end Sources

end Rings

end Chinet
