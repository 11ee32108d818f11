import Chinet.Storage.Blocks

/-!
# The conditions on a stake

`validate_pos_block` for the main chain asks two things of a block: that its stake may mint at this
time (`StakeAccepted`), and that the block spends it properly (`StakeSpent`: the form of the coinbase,
a fresh key image and a signature).  For a stake that names one output by its global index they are all
it asks.
-/

namespace Chinet

section

variable (env : Env) (db : Db) (now : Nat) (b : Block)

/-- The output that a stake names. -/
def StakeOutput (input : TxinToKey) (entry : TransactionChainEntry) (n : Nat) : Prop :=
  ∃ index txId, input.keyOffsets = [.globalIndex index] ∧
    resolveOutputRef db input.amount (.globalIndex index) = some (txId, n) ∧
    db.transactions.lookup txId = some entry

/-- What is asked of the height and the unlock value of a stake. -/
structure SourceAccepted (stakedAmount : UInt64) (height unlockTime : Nat) : Prop where
  byHeight : shouldUnlockValueBeTreatedAsBlockHeight unlockTime = true
  lastPow : env.isAfterHardfork1Zone (getBlockHeight b) = true →
    height ≤ getLastXBlockHeight db.headers false
  outs : env.isAfterHardfork1Zone (getBlockHeight b) = true →
    validatePosCoinbaseOutsUnlockTime env b.minerTx stakedAmount unlockTime (getBlockHeight b) = true
  unlocked : env.isAfterHardfork1Zone (getBlockHeight b) = false →
    isTxSpendtimeUnlocked unlockTime db.size now = true
  age : env.config.minCoinstakeAge ≤ coinstakeAge db.size height

/-- The stake of a block may mint: its timestamp, its kernel, and the output it names. -/
structure StakeAccepted (basicDiff : WideDifficulty) : Prop where
  step : b.timestamp % posScanStep = 0
  kernel : ∃ sm kernel amount, buildStakeModifier env db.headers [] 0 = .ok sm ∧
    buildKernel b sm = .ok (kernel, amount) ∧ amount ≠ 0 ∧
    checkHash (env.crypto.kernelHash kernel) (basicDiff / BitVec.ofNat 128 amount.toNat) = true
  source : ∃ input entry n unlockTime, coinstakeInput? b.minerTx = some input ∧
    StakeOutput db input entry n ∧
    getTxUnlockTime entry.tx.toTransactionPrefix n = .ok unlockTime ∧
    SourceAccepted env db now b input.amount entry.keeperBlockHeight unlockTime

/-- The block spends its stake. -/
structure StakeSpent (inCheckpointZone : Bool) (id : Hash) (input : TxinToKey) : Prop where
  flagged : isPosBlock b = true
  actualTimestamp : getActualTimestamp b - b.timestamp ≤ posMaxActualTimestampToMined ∧
    b.timestamp - getActualTimestamp b ≤ posMaxActualTimestampToMined
  oneInput : b.minerTx.signatures.length = 1
  fresh : haveTxKeyimgAsSpent db input.kImage = false
  signed : ∃ entry n out key htlcs, StakeOutput db input entry n ∧ entry.tx.vout[n]? = some out ∧
    isOutputAllowedForInput out.target (.toKey input) (db.size - entry.keeperBlockHeight) = true ∧
    outputKeyForInput out.target entry.spentFlags[n]? 1 (db.size - entry.keeperBlockHeight) =
      .ok (key, htlcs) ∧
    checkInputSignature env inCheckpointZone b.minerTx 1 input.kImage input.etcDetails id
      (b.minerTx.signatures.getD 0 []) [key] = .ok ()

end

variable {env : Env} {db : Db} {now : Nat} {b : Block}

theorem StakeOutput.unique {input : TxinToKey} {entry entry' : TransactionChainEntry} {n n' : Nat}
    (h : StakeOutput db input entry n) (h' : StakeOutput db input entry' n') :
    entry = entry' ∧ n = n' := by
  obtain ⟨index, txId, href, hresolve, hentry⟩ := h
  obtain ⟨index', txId', href', hresolve', hentry'⟩ := h'
  rw [href] at href'
  cases href'
  rw [hresolve] at hresolve'
  cases hresolve'
  rw [hentry] at hentry'
  cases hentry'
  exact ⟨rfl, rfl⟩

/-! ## The scan of the named output -/

/-- The scan of a stake that names one output, in the coinbase of a PoS block. -/
theorem scanStake_eq_ok_iff {tx : Transaction} {input : TxinToKey} {index : UInt64} {scan : ScanResult}
    (hpos : isPosCoinbase tx = true) (hindex : input.keyOffsets = [.globalIndex index]) :
    scanOutputkeysForIndexes db now tx (.toKey input) input 0 = .ok scan ↔
      ∃ entry n out key unlockTime, StakeOutput db input entry n ∧ entry.tx.vout[n]? = some out ∧
        isOutputAllowedForInput out.target (.toKey input) (db.size - entry.keeperBlockHeight) = true ∧
        outputKeyForInput out.target entry.spentFlags[n]? 1 (db.size - entry.keeperBlockHeight) =
          .ok key ∧
        getTxUnlockTime entry.tx.toTransactionPrefix n = .ok unlockTime ∧
        shouldUnlockValueBeTreatedAsBlockHeight unlockTime = true ∧
        scan = ⟨[key.1], key.2, entry.keeperBlockHeight, unlockTime⟩ := by
  rw [scanOutputkeysForIndexes_single hindex]
  constructor
  · rintro ⟨-, hscan⟩
    obtain ⟨txId, n, entry, out, key, unlockTime, maxUnlockTime, hresolve, hentry, hout, hallowed,
      hkey, hunlock, hmax, rfl⟩ := scanOutput_eq_ok_iff.mp hscan
    rw [handleOutputUnlockTime, if_pos hpos, require_bind_eq_ok] at hmax
    obtain ⟨hheight, hmax⟩ := hmax
    cases hmax
    refine ⟨entry, n, out, key, unlockTime, ⟨index, txId, hindex, hresolve, hentry⟩, hout, hallowed,
      hkey, hunlock, hheight, ?_⟩
    simp
  · rintro ⟨entry, n, out, key, unlockTime, ⟨index', txId, hindex', hresolve, hentry⟩, hout, hallowed,
      hkey, hunlock, hheight, rfl⟩
    rw [hindex] at hindex'
    cases hindex'
    have houtputs : db.outputs input.amount ≠ [] := by
      intro hnil
      rw [resolveOutputRef, hnil] at hresolve
      cases hresolve
    refine ⟨houtputs, scanOutput_eq_ok_iff.mpr ⟨txId, n, entry, out, key, unlockTime, unlockTime,
      hresolve, hentry, hout, hallowed, hkey, hunlock, ?_, by simp⟩⟩
    rw [handleOutputUnlockTime, if_pos hpos, require_bind_eq_ok]
    refine ⟨hheight, ?_⟩
    rw [Nat.zero_max]
    rfl

/-! ## The parts of the validation -/

theorem isPosCoinbase_of_isPosBlock (h : isPosBlock b = true) : isPosCoinbase b.minerTx = true := by
  rw [isPosBlock, Bool.and_eq_true] at h
  have hpos := h.2
  rw [isPosCoinbase, hpos, Bool.and_true]
  rw [isPosTransaction] at hpos
  split at hpos
  · rename_i height txin hvin
    rw [isCoinbase, hvin]
  · cases hpos

theorem validatePosBlockHeader_eq_ok_iff :
    validatePosBlockHeader b = .ok () ↔ isPosBlock b = true ∧ b.timestamp % posScanStep = 0 := by
  rw [validatePosBlockHeader, require_bind_eq_ok, require_eq_ok, decide_eq_true_eq]

theorem validatePosBlockKernel_isOk_iff {blocks altChain : List BlockHeaderInfo} {splitHeight : Nat}
    {basicDiff : WideDifficulty} :
    (∃ proofHash, validatePosBlockKernel env blocks altChain splitHeight b basicDiff = .ok proofHash) ↔
      (getActualTimestamp b - b.timestamp ≤ posMaxActualTimestampToMined ∧
        b.timestamp - getActualTimestamp b ≤ posMaxActualTimestampToMined) ∧
      (∃ sm kernel amount, buildStakeModifier env blocks altChain splitHeight = .ok sm ∧
        buildKernel b sm = .ok (kernel, amount) ∧ amount ≠ 0 ∧
        checkHash (env.crypto.kernelHash kernel) (basicDiff / BitVec.ofNat 128 amount.toNat) = true) ∧
      b.minerTx.signatures.length = 1 := by
  constructor
  · rintro ⟨proofHash, h⟩
    rw [validatePosBlockKernel, require_bind_eq_ok, bind_eq_ok] at h
    obtain ⟨hactual, sm, hsm, h⟩ := h
    rw [bind_eq_ok] at h
    obtain ⟨⟨kernel, amount⟩, hkernel, h⟩ := h
    dsimp only at h
    rw [require_bind_eq_ok, require_bind_eq_ok, require_bind_eq_ok] at h
    obtain ⟨hamount, hcheck, hsignatures, -⟩ := h
    rw [Bool.and_eq_true, decide_eq_true_eq, decide_eq_true_eq] at hactual
    exact ⟨hactual, ⟨sm, kernel, amount, hsm, hkernel, bne_iff_ne.mp hamount, hcheck⟩,
      of_decide_eq_true hsignatures⟩
  · rintro ⟨hactual, ⟨sm, kernel, amount, hsm, hkernel, hamount, hcheck⟩, hsignatures⟩
    refine ⟨env.crypto.kernelHash kernel, ?_⟩
    rw [validatePosBlockKernel, require_bind_eq_ok, bind_eq_ok]
    refine ⟨?_, sm, hsm, ?_⟩
    · rw [Bool.and_eq_true, decide_eq_true_eq, decide_eq_true_eq]
      exact hactual
    · rw [bind_eq_ok]
      refine ⟨(kernel, amount), hkernel, ?_⟩
      dsimp only
      rw [require_bind_eq_ok, require_bind_eq_ok, require_bind_eq_ok]
      exact ⟨bne_iff_ne.mpr hamount, hcheck, decide_eq_true hsignatures, rfl⟩

/-- The height and the unlock value of a stake, as the scan returns them. -/
theorem sourceAccepted_iff {stakedAmount : UInt64} {height unlockTime : Nat} :
    SourceAccepted env db now b stakedAmount height unlockTime ↔
      shouldUnlockValueBeTreatedAsBlockHeight unlockTime = true ∧
        (if env.isAfterHardfork1Zone (getBlockHeight b) then
          height ≤ getLastXBlockHeight db.headers false ∧
            validatePosCoinbaseOutsUnlockTime env b.minerTx stakedAmount unlockTime
              (getBlockHeight b) = true
        else isTxSpendtimeUnlocked unlockTime db.size now = true) ∧
        env.config.minCoinstakeAge ≤ coinstakeAge db.size height := by
  cases hfork : env.isAfterHardfork1Zone (getBlockHeight b) with
  | true =>
      constructor
      · rintro ⟨hheight, hlast, houts, -, hage⟩
        exact ⟨hheight, ⟨hlast hfork, houts hfork⟩, hage⟩
      · rintro ⟨hheight, ⟨hlast, houts⟩, hage⟩
        refine ⟨hheight, fun _ => hlast, fun _ => houts, fun hbefore => ?_, hage⟩
        rw [hfork] at hbefore
        cases hbefore
  | false =>
      have hnot {p : Prop} : env.isAfterHardfork1Zone (getBlockHeight b) = true → p := by
        intro hafter
        rw [hfork] at hafter
        cases hafter
      constructor
      · rintro ⟨hheight, -, -, hunlocked, hage⟩
        exact ⟨hheight, hunlocked hfork, hage⟩
      · rintro ⟨hheight, hunlocked, hage⟩
        exact ⟨hheight, hnot, hnot, fun _ => hunlocked, hage⟩

theorem validatePosBlockInputs_eq_ok_iff {inCheckpointZone : Bool} {id : Hash} {input : TxinToKey}
    {index : UInt64} (hpos : isPosCoinbase b.minerTx = true)
    (hindex : input.keyOffsets = [.globalIndex index]) :
    validatePosBlockInputs env db inCheckpointZone now b id input = .ok () ↔
      ∃ scan, scanOutputkeysForIndexes db now b.minerTx (.toKey input) input 0 = .ok scan ∧
        checkInputSignature env inCheckpointZone b.minerTx 1 input.kImage input.etcDetails id
          (b.minerTx.signatures.getD 0 []) scan.outputKeys = .ok () ∧
        SourceAccepted env db now b input.amount scan.maxRelatedBlockHeight
          scan.sourceMaxUnlockTimeForPosCoinbase := by
  have hsource (scan : ScanResult)
      (hscan : scanOutputkeysForIndexes db now b.minerTx (.toKey input) input 0 = .ok scan) :
      shouldUnlockValueBeTreatedAsBlockHeight scan.sourceMaxUnlockTimeForPosCoinbase = true := by
    obtain ⟨entry, n, out, key, unlockTime, -, -, -, -, -, hheight, rfl⟩ :=
      (scanStake_eq_ok_iff hpos hindex).mp hscan
    exact hheight
  rw [validatePosBlockInputs_eq_ok_iff_scan]
  apply exists_congr
  intro scan
  rw [checkTxInputToKey_eq_ok_iff, and_assoc]
  apply and_congr_right
  intro hscan
  -- one offset, one key
  have hlength : input.keyOffsets.length = scan.outputKeys.length := by
    obtain ⟨entry, n, out, key, unlockTime, -, -, -, -, -, -, rfl⟩ :=
      (scanStake_eq_ok_iff hpos hindex).mp hscan
    rw [hindex]
    rfl
  rw [and_assoc, and_iff_right hlength, sourceAccepted_iff, and_iff_right (hsource scan hscan)]

/-- A block whose stake names one output is valid when its stake may mint and is spent. -/
theorem validatePosBlock_isOk_iff {inCheckpointZone : Bool} {id : Hash} {basicDiff : WideDifficulty}
    {input : TxinToKey} {index : UInt64} (hstake : coinstakeInput? b.minerTx = some input)
    (hindex : input.keyOffsets = [.globalIndex index]) :
    (∃ proofHash, validatePosBlock env db inCheckpointZone now b id basicDiff = .ok proofHash) ↔
      StakeAccepted env db now b basicDiff ∧ StakeSpent env db b inCheckpointZone id input := by
  rw [validatePosBlock_isOk_iff_parts hstake, validatePosBlockHeader_eq_ok_iff,
    validatePosBlockKernel_isOk_iff]
  constructor
  · rintro ⟨⟨hflagged, hstep⟩, ⟨hactual, hkernel, hsignatures⟩, hfresh, hinputs⟩
    have hpos := isPosCoinbase_of_isPosBlock hflagged
    obtain ⟨scan, hscan, hsignature, hsource⟩ := (validatePosBlockInputs_eq_ok_iff hpos hindex).mp hinputs
    obtain ⟨entry, n, out, key, unlockTime, houtput, hout, hallowed, hkey, hunlock, -, rfl⟩ :=
      (scanStake_eq_ok_iff hpos hindex).mp hscan
    exact ⟨⟨hstep, hkernel, input, entry, n, unlockTime, hstake, houtput, hunlock, hsource⟩,
      ⟨hflagged, hactual, hsignatures, hfresh, entry, n, out, key.1, key.2, houtput, hout, hallowed,
        hkey, hsignature⟩⟩
  · rintro ⟨⟨hstep, hkernel, input', entry, n, unlockTime, hstake', houtput, hunlock, hsource⟩,
      ⟨hflagged, hactual, hsignatures, hfresh, entry', n', out, key, htlcs, houtput', hout, hallowed,
        hkey, hsignature⟩⟩
    rw [hstake] at hstake'
    cases hstake'
    obtain ⟨rfl, rfl⟩ := houtput.unique houtput'
    have hpos := isPosCoinbase_of_isPosBlock hflagged
    refine ⟨⟨hflagged, hstep⟩, ⟨hactual, hkernel, hsignatures⟩, hfresh, ?_⟩
    rw [validatePosBlockInputs_eq_ok_iff hpos hindex]
    refine ⟨⟨[key], htlcs, entry.keeperBlockHeight, unlockTime⟩, ?_, hsignature, hsource⟩
    rw [scanStake_eq_ok_iff hpos hindex]
    exact ⟨entry, n, out, (key, htlcs), unlockTime, houtput, hout, hallowed, hkey, hunlock,
      hsource.byHeight, rfl⟩

end Chinet
