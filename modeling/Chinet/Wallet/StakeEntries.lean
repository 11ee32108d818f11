import Chinet.Fork.Headers
import Chinet.Wallet.StakeScan
import Chinet.Wallet.TransfersCache

/-!
# The stakes of a wallet

`wallet2::get_pos_entries` collects the transfers that a wallet stakes, and two programs look for a
kernel among them: `wallet2::scan_pos`, in steps of `POS_SCAN_STEP`, and the node's
`blockchain_storage::scan_pos`, which tries each second of `POS_SCAN_WINDOW` after the last block.

Both return the first kernel in the order of their tries (`IsFirstOf`); the signals of the wallet's
scan can only keep it from returning one.
-/

namespace Chinet

open OrderedSearch PartialSteps

/-! ## The entries -/

structure StakingTransfer extends TransferDetails where
  globalOutputIndex : Nat
  keyImage : KeyImage
  blockTimestamp : Nat
deriving DecidableEq

/-- What `get_pos_entries` reads of a wallet.  A wallet that mines knows the global indexes of its
outputs. -/
structure StakingWallet where
  transfers : List StakingTransfer
  blockchainCurrentSize : Nat
  coreTime : Nat
  lastPowBlockH : Nat

section

variable (env : Env) (w : StakingWallet)

/-- `is_transfer_unlocked` for mining: after the first hard fork a locked transfer is staked too, and
its unlock value is returned. -/
def isTransferUnlockedForPos (td : StakingTransfer) : Option Nat :=
  if td.flags &&& walletTransferDetailFlagBlocked != 0 then none
  else if td.blockHeight + walletDefaultTxSpendableAge > w.blockchainCurrentSize then none
  else
    match getTxUnlockTime td.tx.toTransactionPrefix td.internalOutputIndex with
    | .error _ => none
    | .ok unlockTime =>
        if env.isAfterHardfork1Zone w.blockchainCurrentSize then some unlockTime
        else if isTxSpendtimeUnlocked unlockTime w.blockchainCurrentSize w.coreTime then some 0
        else none

/-- `is_transfer_okay_for_pos`; returns `stake_unlock_time`. -/
def isTransferOkayForPos (td : StakingTransfer) : Option Nat :=
  if !td.isSpendable then none
  else
    match isTransferUnlockedForPos env w td with
    | none => none
    | some stakeUnlockTime =>
        if w.blockchainCurrentSize - td.blockHeight ≤ env.config.minCoinstakeAge then none
        else if td.blockHeight > w.lastPowBlockH then none
        else some stakeUnlockTime

def StakingTransfer.posEntry (td : StakingTransfer) (walletIndex stakeUnlockTime : Nat) :
    PosEntry where
  amount := (td.output?.map TxOut.amount).getD 0
  index := td.globalOutputIndex
  keyimage := td.keyImage
  blockTimestamp := td.blockTimestamp
  stakeUnlockTime := stakeUnlockTime
  walletIndex := walletIndex

/-- `get_pos_entries`. -/
def getPosEntries : List PosEntry :=
  w.transfers.zipIdx.filterMap fun p => (isTransferOkayForPos env w p.1).map (p.1.posEntry p.2)

end

/-! ## The scan of the node -/

/-- The seconds from the timestamp of the last block on. -/
def scanSeconds (blocks : List BlockHeaderInfo) : List Nat :=
  match blocks.getLast? with
  | none => []
  | some bei =>
      List.range' bei.bl.timestamp ((bei.bl.timestamp + posScanWindow) % 2 ^ 64 - bei.bl.timestamp)

/-- `blockchain_storage::scan_pos`; returns the index of the entry and the timestamp. -/
def nodeScanPos (env : Env) (blocks : List BlockHeaderInfo) (posEntries : List PosEntry) :
    Except Failure (Defined (Option (Nat × Nat))) := do
  let basicDiff := getNextDiffConditional env blocks true
  let sm ← buildStakeModifier env blocks [] 0
  return searchAll (tryKernel env.crypto basicDiff sm) (scanSeconds blocks) 0 posEntries

theorem nodeScanPos_eq_some_iff {env : Env} {blocks : List BlockHeaderInfo} {sm : StakeModifier}
    {posEntries : List PosEntry} {i ts : Nat} (hsm : buildStakeModifier env blocks [] 0 = .ok sm) :
    nodeScanPos env blocks posEntries = .ok (.ok (some (i, ts))) ↔
      ∃ pe, IsFirstOf (tryKernel env.crypto (getNextDiffConditional env blocks true) sm)
        (scanSeconds blocks) posEntries i pe ts := by
  have hrun : nodeScanPos env blocks posEntries =
      .ok (searchAll (tryKernel env.crypto (getNextDiffConditional env blocks true) sm)
        (scanSeconds blocks) 0 posEntries) := by
    rw [nodeScanPos, hsm]
    rfl
  rw [hrun, Except.ok.injEq, searchAll_zero_eq_some_iff]

/-! ## The scan of the wallet -/

/-- The timestamps of the wallet's scan, in the order of its turns. -/
def scanTimes (starterTimestamp coreTime : UInt64) : List Nat :=
  (ScanBounds.of (scanFrom starterTimestamp) (scanTo coreTime)).timesAt .start

/-- The scan of the wallet can return an entry and a timestamp when they are the first ones. -/
theorem walletScanPos_found_iff {crypto : CryptoPrimitives} {cxt : MiningContext} {coreTime : UInt64}
    {i ts : Nat} :
    (∃ signals r, walletScanPos crypto cxt signals coreTime = .ok r ∧ r.found = some (i, ts)) ↔
      scanFrom cxt.starterTimestamp < scanTo coreTime ∧
        ∃ pe, IsFirstOf (tryKernel crypto cxt.basicDiff cxt.sm)
          (scanTimes cxt.starterTimestamp coreTime) cxt.posEntries i pe ts := by
  rw [← searchAll_zero_eq_some_iff]
  by_cases hempty : scanTo coreTime ≤ scanFrom cxt.starterTimestamp
  · refine iff_of_false ?_ (fun h => absurd h.1 (Nat.not_lt.mpr hempty))
    rintro ⟨signals, r, hr, hfound⟩
    rw [walletScanPos, if_pos hempty] at hr
    cases hr
    cases hfound
  · have hscan (signals : ScanSignals) : walletScanPos crypto cxt signals coreTime =
        scanEntries (tryKernel crypto cxt.basicDiff cxt.sm) signals
          (.of (scanFrom cxt.starterTimestamp) (scanTo coreTime)) cxt.posEntries 0 0 [] := by
      rw [walletScanPos, if_neg hempty]
    constructor
    · rintro ⟨signals, r, hr, hfound⟩
      refine ⟨Nat.not_le.mp hempty, ?_⟩
      rw [hscan] at hr
      obtain hsearch | ⟨-, r', hr', hnone⟩ := @scanEntries_search
        (.of (scanFrom cxt.starterTimestamp) (scanTo coreTime))
        (tryKernel crypto cxt.basicDiff cxt.sm) signals cxt.posEntries 0 0 []
      · rw [hr] at hsearch
        rw [scanTimes, ← hsearch, ← hfound]
        rfl
      · rw [hr] at hr'
        cases hr'
        rw [hnone] at hfound
        cases hfound
    · rintro ⟨-, hsearch⟩
      rw [scanTimes, ← scanEntries_uninterrupted _ _ 0 0 [], ← hscan] at hsearch
      obtain ⟨r, hr, hfound⟩ := map_eq_ok_iff.mp hsearch
      exact ⟨.none, r, hr, hfound⟩

end Chinet
