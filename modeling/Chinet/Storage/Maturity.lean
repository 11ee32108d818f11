import Chinet.Storage.DoubleSpend

/-!
# Coinbase maturity and the lock of a stake

`prevalidate_miner_transaction` wants every unlock value of a coinbase to be at
least its height plus ten, as a number.  `is_tx_spendtime_unlocked` reads a value
from `CURRENCY_MAX_BLOCK_NUMBER` on as a timestamp, and a timestamp that has passed
locks nothing, however large it is.

* For heights the two checks fit: an output of a coinbase is not spent by a block
  less than ten blocks above it.
* A PoS coinbase locks what it returns of the stake at least as long as the staked
  output is locked (`validate_pos_coinbase_outs_unlock_time`), with the same
  exception.
-/

namespace Chinet

open Procedure FiniteStore

variable {env : Env}

/-! ## Unlock values -/

/-- The unlock value is a timestamp that has passed at `now`. -/
def PassedTimestamp (now u : Nat) : Prop :=
  currencyMaxBlockNumber ≤ u ∧ u ≤ now + currencyLockedTxAllowedDeltaSeconds

theorem isTxSpendtimeUnlocked_iff {u size now : Nat} :
    isTxSpendtimeUnlocked u size now = true ↔
      (u < currencyMaxBlockNumber ∧ u ≤ size) ∨ PassedTimestamp now u := by
  rw [isTxSpendtimeUnlocked, PassedTimestamp, currencyLockedTxAllowedDeltaBlocks]
  split <;> simp <;> omega

theorem foldl_min_le {l : List Nat} {a x : Nat} (h : x ∈ a :: l) : l.foldl min a ≤ x := by
  induction l generalizing a x with
  | nil => exact (List.mem_singleton.mp h).ge
  | cons b rest ih =>
      rw [List.foldl_cons]
      rcases List.mem_cons.mp h with rfl | hrest
      · exact (ih List.mem_cons_self).trans (min_le_left _ _)
      · rcases List.mem_cons.mp hrest with rfl | hrest
        · exact (ih List.mem_cons_self).trans (min_le_right _ _)
        · exact ih (List.mem_cons_of_mem _ hrest)

/-- No output is unlocked below the minimum. -/
theorem minUnlockTime_le {tx : TransactionPrefix} {maxUnlockTime minUnlockTime n u : Nat}
    (hbounds : getTxMaxMinUnlockTime tx = .ok (maxUnlockTime, minUnlockTime))
    (hu : getTxUnlockTime tx n = .ok u) : minUnlockTime ≤ u := by
  unfold getTxMaxMinUnlockTime at hbounds
  unfold getTxUnlockTime at hu
  by_cases hmajor : majorUnlockTime tx ≠ 0
  · rw [if_pos hmajor] at hbounds hu
    cases hbounds
    cases hu
    exact le_rfl
  · rw [if_neg hmajor] at hbounds hu
    cases hlist : unlockTimeArray tx with
    | nil =>
        rw [hlist] at hbounds
        cases hbounds
        exact Nat.zero_le _
    | cons first rest =>
        rw [hlist] at hbounds hu
        dsimp only at hbounds
        split at hbounds
        · cases hbounds
          rw [bind_eq_ok] at hu
          obtain ⟨_, _, hu⟩ := hu
          rw [if_neg (List.cons_ne_nil _ _)] at hu
          rw [bind_eq_ok] at hu
          obtain ⟨_, hlt, hu⟩ := hu
          have hn : n < (first :: rest).length := by
            by_contra hge
            rw [requireThrow, if_neg (by simpa using hge)] at hlt
            cases hlt
          cases hu
          rw [List.getD_eq_getElem?_getD, List.getElem?_eq_getElem hn, Option.getD_some]
          exact foldl_min_le (List.getElem_mem hn)
        · cases hbounds

/-- The unlock values of a coinbase, as numbers. -/
theorem coinbase_unlock_ge {b : Block} {height n u : Nat} {pos : Bool}
    (h : prevalidateMinerTransaction env b height pos = .ok ())
    (hu : getTxUnlockTime b.minerTx.toTransactionPrefix n = .ok u) :
    height + currencyMinedMoneyUnlockWindow ≤ u := by
  unfold prevalidateMinerTransaction checkMinerUnlockTime at h
  rw [require_bind_eq_ok, bind_eq_ok] at h
  obtain ⟨_, _, hunlock, _⟩ := h
  rw [bind_eq_ok] at hunlock
  obtain ⟨⟨maxUnlockTime, minUnlockTime⟩, hbounds, hunlock⟩ := hunlock
  have hmin := minUnlockTime_le hbounds hu
  dsimp only at hunlock
  split at hunlock
  · rw [require_eq_ok] at hunlock
    have hge := of_decide_eq_true hunlock
    omega
  · rw [require_eq_ok, Bool.and_eq_true, decide_eq_true_eq, decide_eq_true_eq] at hunlock
    omega

/-! ## Checked references -/

/-- The input refers to an output of the transaction. -/
def Txin.RefersTo (db : Db) (txId : Hash) (input : Txin) : Prop :=
  (∃ part offsets, ∃ ref n, input.toKeyPart? = some part ∧
    relativeOutputOffsetsToAbsolute part.keyOffsets = .ok offsets ∧ ref ∈ offsets ∧
    resolveOutputRef db part.amount ref = some (txId, n)) ∨
  ∃ id ms, input.multisigOutId? = some id ∧ db.multisigOuts.lookup id = some ms ∧ ms.txId = txId

/-- A source output with its unlock value. -/
structure SourceUnlock (db : Db) (txId : Hash) (n u : Nat) : Prop where
  source : ∃ entry, db.transactions.lookup txId = some entry ∧
    getTxUnlockTime entry.tx.toTransactionPrefix n = .ok u

theorem scanOutput_unlock {db : Db} {now : Nat} {tx : Transaction} {input : Txin} {amount : UInt64}
    {ringSize : Nat} {ref : TxoutRef} {acc acc' : ScanResult}
    (h : scanOutput db now tx input amount ringSize ref acc = .ok acc') :
    ∃ txId n u, resolveOutputRef db amount ref = some (txId, n) ∧ SourceUnlock db txId n u ∧
      handleOutputUnlockTime db now tx u acc.sourceMaxUnlockTimeForPosCoinbase =
        .ok acc'.sourceMaxUnlockTimeForPosCoinbase := by
  obtain ⟨txId, n, entry, _, _, u, _, hresolve, hentry, _, _, _, hu, hmax, rfl⟩ :=
    scanOutput_eq_ok_iff.mp h
  exact ⟨txId, n, u, hresolve, ⟨entry, hentry, hu⟩, hmax⟩

/-- Every output that a transaction other than a PoS coinbase refers to is unlocked. -/
theorem scanOutputs_unlocked {db : Db} {now : Nat} {tx : Transaction} {input : Txin} {amount : UInt64}
    {ringSize : Nat} {refs : List TxoutRef} {acc acc' : ScanResult} (hpos : isPosCoinbase tx = false)
    (h : scanOutputs db now tx input amount ringSize refs acc = .ok acc') :
    ∀ ref ∈ refs, ∃ txId n u, resolveOutputRef db amount ref = some (txId, n) ∧
      SourceUnlock db txId n u ∧ isTxSpendtimeUnlocked u db.size now = true := by
  induction refs generalizing acc with
  | nil => exact nofun
  | cons ref rest ih =>
      rw [scanOutputs, bind_eq_ok] at h
      obtain ⟨acc₁, hfirst, hrest⟩ := h
      intro other hother
      rcases List.mem_cons.mp hother with rfl | hother
      · obtain ⟨txId, n, u, href, hsource, hunlock⟩ := scanOutput_unlock hfirst
        rw [handleOutputUnlockTime, hpos, if_neg Bool.false_ne_true, require_bind_eq_ok] at hunlock
        exact ⟨txId, n, u, href, hsource, hunlock.1⟩
      · exact ih hrest other hother

/-- For a PoS coinbase the unlock values are heights, and their maximum is kept. -/
theorem scanOutputs_posCoinbase {db : Db} {now : Nat} {tx : Transaction} {input : Txin}
    {amount : UInt64} {ringSize : Nat} {refs : List TxoutRef} {acc acc' : ScanResult}
    (hpos : isPosCoinbase tx = true)
    (hacc : acc.sourceMaxUnlockTimeForPosCoinbase < currencyMaxBlockNumber)
    (h : scanOutputs db now tx input amount ringSize refs acc = .ok acc') :
    acc.sourceMaxUnlockTimeForPosCoinbase ≤ acc'.sourceMaxUnlockTimeForPosCoinbase ∧
      acc'.sourceMaxUnlockTimeForPosCoinbase < currencyMaxBlockNumber ∧
      ∀ ref ∈ refs, ∃ txId n u, resolveOutputRef db amount ref = some (txId, n) ∧
        SourceUnlock db txId n u ∧ u ≤ acc'.sourceMaxUnlockTimeForPosCoinbase := by
  induction refs generalizing acc with
  | nil =>
      cases h
      exact ⟨le_rfl, hacc, nofun⟩
  | cons ref rest ih =>
      rw [scanOutputs, bind_eq_ok] at h
      obtain ⟨acc₁, hfirst, hrest⟩ := h
      obtain ⟨txId, n, u, href, hsource, hunlock⟩ := scanOutput_unlock hfirst
      rw [handleOutputUnlockTime, hpos, if_pos rfl, require_bind_eq_ok,
        shouldUnlockValueBeTreatedAsBlockHeight, decide_eq_true_eq] at hunlock
      obtain ⟨hheight, hmax⟩ := hunlock
      have hmax₁ : acc₁.sourceMaxUnlockTimeForPosCoinbase =
          max acc.sourceMaxUnlockTimeForPosCoinbase u := (Except.ok.inj hmax).symm
      obtain ⟨hle, hbound, hall⟩ := ih (by rw [hmax₁]; exact max_lt hacc hheight) hrest
      rw [hmax₁] at hle
      refine ⟨(le_max_left _ _).trans hle, hbound, ?_⟩
      intro other hother
      rcases List.mem_cons.mp hother with rfl | hother
      · exact ⟨txId, n, u, href, hsource, (le_max_right _ _).trans hle⟩
      · exact hall other hother

theorem checkMsInput_unlocked {db : Db} {zone : Bool} {now : Nat} {tx sourceTx : Transaction}
    {i outN : Nat} {txin : TxinMultisig} {hash : Hash}
    (h : checkMsInput env db zone now tx i txin hash sourceTx outN = .ok ()) :
    ∃ u, getTxUnlockTime sourceTx.toTransactionPrefix outN = .ok u ∧
      isTxSpendtimeUnlocked u db.size now = true := by
  unfold checkMsInput at h
  rw [bind_eq_ok] at h
  obtain ⟨u, hu, h⟩ := h
  rw [require_bind_eq_ok] at h
  exact ⟨u, hu, h.1⟩

theorem checkTxInputMultisig_unlocked {db : Db} {zone : Bool} {now : Nat} {tx : Transaction} {i : Nat}
    {txin : TxinMultisig} {hash : Hash} {height : Nat}
    (h : checkTxInputMultisig env db zone now tx i txin hash = .ok height) {ms : MsOutputEntry}
    (hms : db.multisigOuts.lookup txin.multisigOutId = some ms) :
    ∃ u, SourceUnlock db ms.txId ms.outNo u ∧ isTxSpendtimeUnlocked u db.size now = true := by
  obtain ⟨ms', entry, _, hms', _, hentry, _, _, hcheck, _⟩ := checkTxInputMultisig_eq_ok_iff.mp h
  rw [hms] at hms'
  cases hms'
  obtain ⟨u, hu, hunlocked⟩ := checkMsInput_unlocked hcheck
  exact ⟨u, ⟨entry, hentry, hu⟩, hunlocked⟩

/-- Every transaction that an input refers to has an unlocked output. -/
theorem checkTxInput_unlocked {db : Db} {zone : Bool} {now : Nat} {tx : Transaction} {hash txId : Hash}
    {i height height' : Nat} {input : Txin} (hpos : isPosCoinbase tx = false)
    (h : checkTxInput env db zone now tx hash i height input = .ok height')
    (hrefers : input.RefersTo db txId) :
    ∃ n u, SourceUnlock db txId n u ∧ isTxSpendtimeUnlocked u db.size now = true := by
  rcases hrefers with ⟨part, offsets, ref, n, hpart, hoffsets, href, hresolve⟩ | ⟨id, ms, hid, hms, rfl⟩
  · obtain ⟨scan, hscan, _⟩ := checkTxInput_scan hpart h
    unfold scanOutputkeysForIndexes at hscan
    rw [require_bind_eq_ok, bind_eq_ok] at hscan
    obtain ⟨_, offsets', hoffsets', hscan⟩ := hscan
    rw [hoffsets] at hoffsets'
    cases hoffsets'
    obtain ⟨txId', n', u, hresolve', hsource, hunlocked⟩ := scanOutputs_unlocked hpos hscan ref href
    rw [hresolve] at hresolve'
    cases hresolve'
    exact ⟨n, u, hsource, hunlocked⟩
  · cases input with
    | gen height => cases hid
    | toKey txin => cases hid
    | htlc txin => cases hid
    | multisig txin =>
        cases hid
        unfold checkTxInput at h
        rw [require_bind_eq_ok] at h
        obtain ⟨u, hsource, hunlocked⟩ := checkTxInputMultisig_unlocked h.2 hms
        exact ⟨ms.outNo, u, hsource, hunlocked⟩

theorem checkTxInputs_unlocked {db : Db} {zone : Bool} {now : Nat} {tx : Transaction}
    {hash txId : Hash} {height : Nat} (hpos : isPosCoinbase tx = false)
    (h : checkTxInputs env db zone now tx hash = .ok height) {input : Txin} (hinput : input ∈ tx.vin)
    (hrefers : input.RefersTo db txId) :
    ∃ n u, SourceUnlock db txId n u ∧ isTxSpendtimeUnlocked u db.size now = true := by
  unfold checkTxInputs at h
  rw [bind_eq_ok] at h
  obtain ⟨maxUsed, hrun, _⟩ := h
  have hall : ∀ inputs i height height', checkTxInputsFrom env db zone now tx hash i height inputs =
      .ok height' → input ∈ inputs → ∃ j maxUsed maxUsed',
        checkTxInput env db zone now tx hash j maxUsed input = .ok maxUsed' := by
    intro inputs
    induction inputs with
    | nil => exact nofun
    | cons first rest ih =>
        intro i height height' hrun hmem
        rw [checkTxInputsFrom, bind_eq_ok] at hrun
        obtain ⟨height₁, hfirst, hrest⟩ := hrun
        rcases List.mem_cons.mp hmem with rfl | hmem
        · exact ⟨i, height, height₁, hfirst⟩
        · exact ih _ _ _ hrest hmem
  obtain ⟨j, maxUsed, maxUsed', hcheck⟩ := hall _ _ _ _ hrun hinput
  exact checkTxInput_unlocked hpos hcheck hrefers

/-! ## Inside a block -/

/-- The state in which `handle_block_to_main_chain` checks a transaction of `bl`:
the coinbase and the transactions before it are added. -/
structure InBlock (env : Env) (now : Nat) (bl : Block) (id : Hash) (onboard : TransactionsMap)
    (node node' : Node) : Prop where
  run : ∃ currentDiffic stakeHash afterHeader afterCoinbase totals added rest,
    checkBlockHeader env now bl id node = (.ok (currentDiffic, stakeHash), afterHeader) ∧
    addTransactionFromBlock env bl.minerTx (getTransactionHash env.crypto bl.minerTx) node.db.size
      afterHeader = (.ok (), afterCoinbase) ∧
    bl.txHashes = added ++ rest ∧
    addBlockTransactions env now bl id onboard 0 (coinbaseTotals env bl) added afterCoinbase =
      (.ok totals, node')

/-- Each block of a history was checked at its height. -/
theorem History.blockValid_at {records : List BlockRecord} {db : Db} (h : History env records db) :
    ∀ height r, records[height]? = some r → ∃ D, BlockValid env D r ∧ D.size = height := by
  induction h with
  | empty hsame hblocks => exact nofun
  | @snoc records D db r hist hvalid hsame hblocks ih =>
      intro height r' hr'
      have hsize : D.size = records.length := by rw [Db.size, hist.blocks_eq, List.length_map]
      rcases lt_trichotomy height records.length with hlt | heq | hgt
      · rw [List.getElem?_append_left hlt] at hr'
        exact ih height r' hr'
      · rw [heq, List.getElem?_concat_length] at hr'
        rw [← Option.some.inj hr']
        exact ⟨D, hvalid, hsize.trans heq.symm⟩
      · rw [List.getElem?_eq_none (by simp; omega)] at hr'
        cases hr'

/-- A coinbase that is not ten blocks deep when `bl` is added to the chain. -/
def ImmatureCoinbase (db : Db) (bl : Block) (coinbase : Transaction) : Prop :=
  coinbase = bl.minerTx ∨
    ∃ height bei, db.blocks[height]? = some bei ∧ coinbase = bei.bl.minerTx ∧
      db.size < height + currencyMinedMoneyUnlockWindow

/-- The unlock values of an immature coinbase are above the height of the block. -/
theorem ImmatureCoinbase.unlock_gt {now : Nat} {bl : Block} {id : Hash} {onboard : TransactionsMap}
    {node node' : Node} {coinbase : Transaction} (hreach : Reachable env node.db)
    (hin : InBlock env now bl id onboard node node') (h : ImmatureCoinbase node.db bl coinbase)
    {n u : Nat} (hu : getTxUnlockTime coinbase.toTransactionPrefix n = .ok u) : node.db.size < u := by
  rcases h with rfl | ⟨height, bei, hbei, rfl, hdepth⟩
  · obtain ⟨_, _, _, _, _, _, _, hheader, _⟩ := hin.run
    have hge := coinbase_unlock_ge (checkBlockHeader_ok hheader).minerTx hu
    rw [currencyMinedMoneyUnlockWindow] at hge
    omega
  · obtain ⟨records, hist⟩ := hreach.history
    rw [hist.blocks_eq, List.getElem?_map] at hbei
    obtain ⟨r, hr, rfl⟩ := Option.map_eq_some_iff.mp hbei
    obtain ⟨D, hvalid, hD⟩ := hist.blockValid_at height r hr
    obtain ⟨_, _, _, _, hheader⟩ := hvalid.header
    have hge := coinbase_unlock_ge hheader.minerTx hu
    omega

/-- Inside a block its own coinbase and those of the chain are found. -/
theorem InBlock.coinbase_stored {now : Nat} {bl : Block} {id : Hash} {onboard : TransactionsMap}
    {node node' : Node} (hreach : Reachable env node.db)
    (hin : InBlock env now bl id onboard node node') :
    node'.db.size = node.db.size ∧
      ∀ coinbase, ImmatureCoinbase node.db bl coinbase →
        (node'.db.transactions.lookup (getTransactionHash env.crypto coinbase)).map
          TransactionChainEntry.tx = some coinbase := by
  obtain ⟨_, _, afterHeader, afterCoinbase, totals, added, rest, hheader, hcoinbase, _, hrun⟩ := hin.run
  have hchecked := checkBlockHeader_ok hheader
  have hdb : afterHeader.db = node.db :=
    congrArg Prod.fst ((keeps_checkBlockHeader env now bl id).eq_of_run hheader)
  have hno := hchecked.no_multisig
  obtain ⟨indexes, haddable, _, hdb₁⟩ := addTransactionFromBlock_ok
    (fun input hinput hid => absurd hid (by rw [hno input hinput]; simp)) hcoinbase
  rw [hdb] at haddable hdb₁
  let c : LedgerEntry := ⟨getTransactionHash env.crypto bl.minerTx, bl.minerTx, node.db.size, indexes⟩
  have hsize₁ : afterCoinbase.db.size = node.db.size := by
    rw [hdb₁]
    exact size_of_chainView (applyEntry_chainView _ _ _)
  obtain ⟨ps, hps, _⟩ := addBlockTransactions_ok (by rw [hsize₁]; exact hreach.size_ne_zero)
    (Std.Refl.refl _) hrun
  have hentries : EntriesValid env node.db (c :: ps.map ProcessedTx.entry) := by
    refine ⟨⟨haddable, fun input hinput => (hchecked.inputs input hinput).1⟩, ?_⟩
    rw [← hdb₁]
    exact hps.valid
  have hdb₂ : node'.db = applyEntries env (c :: ps.map ProcessedTx.entry) node.db := by
    rw [applyEntries, ← hdb₁, hps.db_eq]
  refine ⟨?_, ?_⟩
  · rw [hdb₂]
    exact size_of_chainView (applyEntries_chainView _ _)
  · obtain ⟨records, hist⟩ := hreach.history
    have hledger := hist.ledger.append hentries
    rw [← hdb₂] at hledger
    rintro coinbase (rfl | ⟨height, bei, hbei, rfl, _⟩)
    · exact hledger.lookup_tx c (List.mem_append_right _ List.mem_cons_self)
    · rw [hist.blocks_eq, List.getElem?_map] at hbei
      obtain ⟨r, hr, rfl⟩ := Option.map_eq_some_iff.mp hbei
      obtain ⟨D, hvalid, _⟩ := hist.blockValid_at height r hr
      have hmem : r.coinbase ∈ records.flatMap BlockRecord.entries :=
        List.mem_flatMap.mpr ⟨r, List.mem_of_getElem? hr, List.mem_cons_self⟩
      have hlookup := hledger.lookup_tx r.coinbase (List.mem_append_left _ hmem)
      rw [hvalid.coinbase_txId, hvalid.coinbase_tx] at hlookup
      exact hlookup

/-! ## The lock of the stake -/

/-- An output of the transaction is locked at this size of the chain and time. -/
def outIsLocked (tx : TransactionPrefix) (size now n : Nat) : Bool :=
  match getTxUnlockTime tx n with
  | .ok u => !isTxSpendtimeUnlocked u size now
  | .error _ => false

/-- The amount of the outputs from number `n` on that are locked. -/
def lockedAmountFrom (locked : Nat → Bool) : Nat → List TxOut → Nat
  | _, [] => 0
  | n, out :: rest => (if locked n then out.amount.toNat else 0) + lockedAmountFrom locked (n + 1) rest

def lockedAmount (tx : TransactionPrefix) (size now : Nat) : Nat :=
  lockedAmountFrom (outIsLocked tx size now) 0 tx.vout

def totalAmount (tx : TransactionPrefix) : Nat :=
  (tx.vout.map fun out => out.amount.toNat).sum

theorem lockedAmountFrom_all {locked : Nat → Bool} (hall : ∀ n, locked n = true) (n : Nat)
    (outs : List TxOut) : lockedAmountFrom locked n outs = (outs.map fun out => out.amount.toNat).sum := by
  induction outs generalizing n with
  | nil => rfl
  | cons out rest ih =>
      rw [lockedAmountFrom, if_pos (hall n), ih, List.map_cons, List.sum_cons]

/-- What the sum of `validate_pos_coinbase_outs_unlock_time` counts is locked, even
where the sum wraps. -/
theorem le_lockedAmountFrom {locked : Nat → Bool} {bound n : Nat} {unlockTimes : List Nat}
    {outs : List TxOut}
    (hlocked : ∀ i u, unlockTimes[i]? = some u → bound ≤ u → locked (n + i) = true) :
    (((unlockTimes.zip outs).filter fun p : Nat × TxOut => bound ≤ p.1).map
      fun p : Nat × TxOut => p.2.amount).sum.toNat ≤
      lockedAmountFrom locked n outs := by
  induction outs generalizing n unlockTimes with
  | nil => simp [lockedAmountFrom]
  | cons out rest ih =>
      cases unlockTimes with
      | nil => simp
      | cons u us =>
          have hrest := @ih (n + 1) us fun i u' hu' hle => by
            have hstep := hlocked (i + 1) u' hu' hle
            rwa [← Nat.add_assoc, Nat.add_right_comm] at hstep
          rw [List.zip_cons_cons, List.filter_cons, lockedAmountFrom]
          by_cases hle : bound ≤ u
          · have hfirst : locked n = true := hlocked 0 u rfl hle
            rw [if_pos (by simpa using hle), if_pos hfirst, List.map_cons, List.sum_cons,
              UInt64.toNat_add]
            dsimp only
            have hmod := Nat.mod_le (out.amount.toNat +
              (((us.zip rest).filter fun p : Nat × TxOut => bound ≤ p.1).map
      fun p : Nat × TxOut => p.2.amount).sum.toNat) (2 ^ 64)
            omega
          · rw [if_neg (by simpa using hle)]
            omega

/-- The outputs that the stake refers to, with their unlock values. -/
def StakeSource (db : Db) (stake : TxinToKey) (u : Nat) : Prop :=
  ∃ offsets ref txId n, relativeOutputOffsetsToAbsolute stake.keyOffsets = .ok offsets ∧
    ref ∈ offsets ∧ resolveOutputRef db stake.amount ref = some (txId, n) ∧ SourceUnlock db txId n u

/-- What the checks of a PoS block say about the unlock values of the stake: all are
below the maximum, which is a height, and the outputs of the coinbase were compared
with it or it is no lock any more. -/
theorem validatePosBlock_unlock {db : Db} {zone : Bool} {now : Nat} {b : Block} {id : Hash}
    {basicDiff : WideDifficulty} {proofHash : Hash} (hpos : isPosCoinbase b.minerTx = true)
    (h : validatePosBlock env db zone now b id basicDiff = .ok proofHash) :
    ∃ stake sourceMax, coinstakeInput? b.minerTx = some stake ∧ sourceMax < currencyMaxBlockNumber ∧
      (∀ u, StakeSource db stake u → u ≤ sourceMax) ∧
      (validatePosCoinbaseOutsUnlockTime env b.minerTx stake.amount sourceMax (getBlockHeight b) = true ∨
        sourceMax ≤ db.size) := by
  obtain ⟨stake, _, hstake, _, _, hinputs⟩ := validatePosBlock_eq_ok_iff.mp h
  unfold validatePosBlockInputs at hinputs
  rw [bind_eq_ok] at hinputs
  obtain ⟨scan, hcheck, hinputs⟩ := hinputs
  obtain ⟨hscan, _⟩ := checkTxInputToKey_eq_ok_iff.mp hcheck
  unfold scanOutputkeysForIndexes at hscan
  rw [require_bind_eq_ok, bind_eq_ok] at hscan
  obtain ⟨_, offsets, hoffsets, hscan⟩ := hscan
  obtain ⟨_, hheight, hall⟩ := scanOutputs_posCoinbase hpos (by decide) hscan
  refine ⟨stake, scan.sourceMaxUnlockTimeForPosCoinbase, hstake, hheight, ?_, ?_⟩
  · rintro u ⟨offsets', ref, txId, n, hoffsets', href, hresolve, ⟨entry, hentry, hu⟩⟩
    rw [hoffsets] at hoffsets'
    cases hoffsets'
    obtain ⟨txId', n', u', hresolve', ⟨entry', hentry', hu'⟩, hle⟩ := hall ref href
    rw [hresolve] at hresolve'
    cases hresolve'
    rw [hentry] at hentry'
    cases hentry'
    rw [hu] at hu'
    cases hu'
    exact hle
  · split at hinputs
    · rw [require_bind_eq_ok, require_bind_eq_ok] at hinputs
      exact .inl hinputs.2.1
    · rw [require_bind_eq_ok, isTxSpendtimeUnlocked_iff] at hinputs
      rcases hinputs.1 with ⟨_, hle⟩ | ⟨hlarge, _⟩
      · exact .inr hle
      · omega

/-- As long as an output of the stake is locked, as much of the coinbase is. -/
theorem stake_locked {db : Db} {zone : Bool} {now : Nat} {b : Block} {id : Hash}
    {basicDiff : WideDifficulty} {proofHash : Hash} (hpos : isPosCoinbase b.minerTx = true)
    (h : validatePosBlock env db zone now b id basicDiff = .ok proofHash) :
    ∃ stake, coinstakeInput? b.minerTx = some stake ∧ ∀ u, StakeSource db stake u →
      ∀ size now', db.size ≤ size →
        (∀ n u', getTxUnlockTime b.minerTx.toTransactionPrefix n = .ok u' → ¬ PassedTimestamp now' u') →
        isTxSpendtimeUnlocked u size now' = false →
        min stake.amount.toNat (totalAmount b.minerTx.toTransactionPrefix) ≤
          lockedAmount b.minerTx.toTransactionPrefix size now' := by
  obtain ⟨stake, sourceMax, hstake, hheight, hsources, hcompared⟩ := validatePosBlock_unlock hpos h
  refine ⟨stake, hstake, fun u hsource size now' hsize hpassed hlocked => ?_⟩
  have hle := hsources u hsource
  have hu : size < u := by
    by_contra hge
    have hunlocked := isTxSpendtimeUnlocked_iff.mpr
      (Or.inl ⟨hle.trans_lt hheight, Nat.not_lt.mp hge⟩ : _ ∨ PassedTimestamp now' u)
    rw [hlocked] at hunlocked
    cases hunlocked
  -- an output whose unlock value is not below that of the sources is locked
  have hout : ∀ n u', getTxUnlockTime b.minerTx.toTransactionPrefix n = .ok u' → sourceMax ≤ u' →
      outIsLocked b.minerTx.toTransactionPrefix size now' n = true := by
    intro n u' hu' hge
    rw [outIsLocked, hu']
    dsimp only
    rw [Bool.not_eq_true', Bool.eq_false_iff]
    intro hunlocked
    rcases isTxSpendtimeUnlocked_iff.mp hunlocked with ⟨_, hsmall⟩ | htime
    · omega
    · exact hpassed n u' hu' htime
  rcases hcompared with hcompared | hold
  · rw [validatePosCoinbaseOutsUnlockTime] at hcompared
    by_cases hmajor : majorUnlockTime b.minerTx.toTransactionPrefix ≠ 0
    · -- one value for all outputs
      rw [if_pos hmajor, decide_eq_true_eq] at hcompared
      have hall : ∀ n, outIsLocked b.minerTx.toTransactionPrefix size now' n = true := by
        intro n
        refine hout n (majorUnlockTime b.minerTx.toTransactionPrefix) ?_ hcompared
        rw [getTxUnlockTime, if_pos hmajor]
      rw [lockedAmount, lockedAmountFrom_all hall]
      exact min_le_right _ _
    · rw [if_neg hmajor] at hcompared
      simp only [Bool.and_eq_true, decide_eq_true_eq] at hcompared
      obtain ⟨⟨⟨_, hlength⟩, _⟩, hamount⟩ := hcompared
      have hvalues : ∀ i u', (unlockTimeArray b.minerTx.toTransactionPrefix)[i]? = some u' →
          sourceMax ≤ u' → outIsLocked b.minerTx.toTransactionPrefix size now' (0 + i) = true := by
        intro i u' hu' hge
        rw [Nat.zero_add]
        refine hout i u' ?_ hge
        have hlt := (List.getElem?_eq_some_iff.mp hu').1
        have hne : unlockTimeArray b.minerTx.toTransactionPrefix ≠ [] := by
          intro hnil
          rw [hnil] at hlt
          cases hlt
        rw [getTxUnlockTime, if_neg hmajor, requireThrow, if_pos (by simpa [← hlength] using hlt),
          if_neg hne, requireThrow, if_pos (by simpa using hlt), List.getD_eq_getElem?_getD, hu']
        rfl
      have hsum := @le_lockedAmountFrom _ _ _ _ b.minerTx.vout hvalues
      have hstaked := UInt64.le_iff_toNat_le.mp hamount
      rw [lockedAmount]
      exact (min_le_left _ _).trans (hstaked.trans hsum)
  · omega

/-! ## Both together -/

theorem isPosCoinbase_of_semantic {tx : Transaction} {blobSize : Nat}
    (h : validateTxSemantic env.crypto tx.toTransactionPrefix blobSize = true) :
    isPosCoinbase tx = false := by
  simp only [validateTxSemantic, Bool.and_eq_true] at h
  have htypes : checkInputsTypesSupported tx.toTransactionPrefix = true := by tauto
  rw [isPosCoinbase, isPosTransaction]
  split
  · rename_i height stake hvin
    rw [checkInputsTypesSupported, hvin] at htypes
    cases htypes
  · exact Bool.and_false _

theorem CheckedHeader.stake_locked {now : Nat} {bl : Block} {id : Hash} {db : Db}
    {currentDiffic : WideDifficulty} {stakeHash : Hash}
    (h : CheckedHeader env now bl id db currentDiffic stakeHash) (hpos : isPosBlock bl = true) :
    ∃ stake, coinstakeInput? bl.minerTx = some stake ∧ ∀ u, StakeSource db stake u →
      ∀ size now', db.size ≤ size →
        (∀ n u', getTxUnlockTime bl.minerTx.toTransactionPrefix n = .ok u' →
          ¬ PassedTimestamp now' u') →
        isTxSpendtimeUnlocked u size now' = false →
        min stake.amount.toNat (totalAmount bl.minerTx.toTransactionPrefix) ≤
          lockedAmount bl.minerTx.toTransactionPrefix size now' := by
  have hproof := h.proof
  rw [checkProof, if_pos hpos] at hproof
  have hcoinbase : isPosCoinbase bl.minerTx = true := by
    simp only [isPosBlock, Bool.and_eq_true] at hpos
    have htx := hpos.2
    rw [isPosCoinbase, Bool.and_eq_true]
    refine ⟨?_, htx⟩
    rw [isPosTransaction] at htx
    split at htx
    · rename_i hvin
      rw [isCoinbase, hvin]
    · cases htx
  exact Chinet.stake_locked hcoinbase hproof

/-- Unless a coinbase is locked until a time that has passed, its outputs are not
spent less than ten blocks above it, and a PoS coinbase stays locked as long as its
stake would have been. -/
theorem coinbases_locked {now : Nat} {bl : Block} {id : Hash} {onboard : TransactionsMap}
    {node node' : Node} (hreach : Reachable env node.db)
    (hin : InBlock env now bl id onboard node node') :
    (∀ coinbase, ImmatureCoinbase node.db bl coinbase →
      (∀ n u now', getTxUnlockTime coinbase.toTransactionPrefix n = .ok u →
        (isTxSpendtimeUnlocked u node'.db.size now' = true ↔ PassedTimestamp now' u)) ∧
      ∀ now', (∀ n u, getTxUnlockTime coinbase.toTransactionPrefix n = .ok u →
          ¬ PassedTimestamp now' u) →
        ∀ tx blobSize zone hash height,
          validateTxSemantic env.crypto tx.toTransactionPrefix blobSize = true →
          checkTxInputs env node'.db zone now' tx hash = .ok height →
          ∀ input ∈ tx.vin, ¬ input.RefersTo node'.db (getTransactionHash env.crypto coinbase)) ∧
    (isPosBlock bl = true →
      ∃ stake, coinstakeInput? bl.minerTx = some stake ∧ ∀ u, StakeSource node.db stake u →
        ∀ size now', node.db.size ≤ size →
          (∀ n u', getTxUnlockTime bl.minerTx.toTransactionPrefix n = .ok u' →
            ¬ PassedTimestamp now' u') →
          isTxSpendtimeUnlocked u size now' = false →
          min stake.amount.toNat (totalAmount bl.minerTx.toTransactionPrefix) ≤
            lockedAmount bl.minerTx.toTransactionPrefix size now') := by
  obtain ⟨hsize, hstored⟩ := hin.coinbase_stored hreach
  refine ⟨fun coinbase himmature => ?_, fun hpos => ?_⟩
  · have hiff : ∀ n u now', getTxUnlockTime coinbase.toTransactionPrefix n = .ok u →
        (isTxSpendtimeUnlocked u node'.db.size now' = true ↔ PassedTimestamp now' u) := by
      intro n u now' hu
      have hgt := himmature.unlock_gt hreach hin hu
      rw [isTxSpendtimeUnlocked_iff, hsize]
      constructor
      · rintro (⟨_, hle⟩ | hpassed)
        · omega
        · exact hpassed
      · exact Or.inr
    refine ⟨hiff, fun now' hpassed tx blobSize zone hash height hsemantic hcheck input hinput hrefers => ?_⟩
    obtain ⟨n, u, ⟨entry, hentry, hu⟩, hunlocked⟩ :=
      checkTxInputs_unlocked (isPosCoinbase_of_semantic hsemantic) hcheck hinput hrefers
    have htx := hstored coinbase himmature
    rw [hentry] at htx
    rw [Option.some.inj htx] at hu
    exact hpassed n u hu ((hiff n u now' hu).mp hunlocked)
  · obtain ⟨_, _, _, _, _, _, _, hheader, _⟩ := hin.run
    exact (checkBlockHeader_ok hheader).stake_locked hpos

/-- A block that was added went through such states. -/
theorem AddedBlock.inBlock {now : Nat} {bl : Block} {id : Hash} {onboard : TransactionsMap}
    {node node' : Node} (s : AddedBlock env now bl id onboard node node') :
    InBlock env now bl id onboard node s.afterTransactions :=
  ⟨s.currentDiffic, s.stakeHash, s.afterHeader, s.afterCoinbase, s.totals, bl.txHashes, [], s.header,
    s.coinbase, (List.append_nil _).symm, s.transactions⟩

theorem coinbases_locked_on_sampleMainNode :
    ∃ node', InBlock sampleEnv 100000 (samplePlainBlock 1) 2 ∅ sampleGenesisNode node' ∧
      ∀ coinbase, ImmatureCoinbase sampleGenesisNode.db (samplePlainBlock 1) coinbase →
        ∀ n u now', getTxUnlockTime coinbase.toTransactionPrefix n = .ok u →
          (isTxSpendtimeUnlocked u node'.db.size now' = true ↔ PassedTimestamp now' u) := by
  have hadd : handleBlockToMainChain sampleEnv 100000 (samplePlainBlock 1) 2 ∅ sampleGenesisNode =
      (.ok .addedToMainChain, sampleMainNode) := Prod.ext (by decide +kernel) rfl
  obtain ⟨s⟩ := handleBlockToMainChain_added hadd
  refine ⟨s.afterTransactions, s.inBlock, fun coinbase himmature => ?_⟩
  exact ((coinbases_locked reachable_sampleGenesisNode s.inBlock).1 coinbase himmature).1

/-! ## A coinbase locked until 1985 -/

def hardfork1Env : Env :=
  { sampleEnv with config := { sampleEnv.config with hardFork01StartsAfterHeight := 0 } }

/-- Block 1, with the smallest timestamp as its unlock value. -/
def timestampBlock : Block :=
  let b := samplePlainBlock 1
  { b with minerTx := { b.minerTx with extra := [.publicKey 2, .unlockTime currencyMaxBlockNumber] } }

def timestampNode : Node :=
  (addBlocks hardfork1Env 1700000000 ∅ [samplePlainBlock 0, timestampBlock] emptyNode).getD emptyNode

/-- A transaction that spends the reward of block 1. -/
def earlySpendTx : Transaction :=
  sampleMultisigTx 998 [sampleMultisigInput 0 1 currencyBlockReward]
    [sampleMultisigOut currencyBlockReward]

def earlySpendBlock : Block :=
  sampleBlock 0 2 2 [sampleMultisigOut currencyBlockReward] [getTransactionHash sampleCrypto earlySpendTx]

/-- Block 2 spends the coinbase of block 1. -/
theorem timestampBlock_spent_at_once :
    Reachable hardfork1Env timestampNode.db ∧ timestampNode.db.size = 2 ∧
      (timestampNode.db.blocks[1]?.map fun bei => bei.bl) = some timestampBlock ∧
      validateTxSemantic sampleCrypto earlySpendTx.toTransactionPrefix 100 = true ∧
      checkTxInputs hardfork1Env timestampNode.db false 1700000000 earlySpendTx 998 = .ok 1 ∧
      (∃ input ∈ earlySpendTx.vin,
        input.RefersTo timestampNode.db (getTransactionHash sampleCrypto timestampBlock.minerTx)) ∧
      (handleBlockToMainChain hardfork1Env 1700000000 earlySpendBlock
        (hardfork1Env.crypto.getBlockHash earlySpendBlock)
        (Finmap.singleton (getTransactionHash sampleCrypto earlySpendTx) earlySpendTx)
        timestampNode).1 = .ok .addedToMainChain := by
  have hrun : (addBlocks hardfork1Env 1700000000 ∅ [samplePlainBlock 0, timestampBlock]
      emptyNode).isSome = true := by
    decide +kernel
  have hms : (timestampNode.db.multisigOuts.lookup
      (sampleMultisigInput 0 1 currencyBlockReward).multisigOutId).map MsOutputEntry.txId =
      some (getTransactionHash sampleCrypto timestampBlock.minerTx) := by
    decide +kernel
  obtain ⟨ms, hlookup, htxId⟩ := Option.map_eq_some_iff.mp hms
  refine ⟨reachable_of_isSome_addBlocks rfl hrun, by decide +kernel, by decide +kernel,
    by decide +kernel, by decide +kernel, ?_, by decide +kernel⟩
  exact ⟨.multisig (sampleMultisigInput 0 1 currencyBlockReward), List.mem_singleton_self _,
    .inr ⟨_, ms, rfl, hlookup, htxId⟩⟩

end Chinet
