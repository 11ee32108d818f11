import Chinet.Storage.StakeConditions
import Chinet.Wallet.StakeEntries

/-!
# Stakes that are found and blocks that are accepted

A wallet that is synchronized with the chain looks for a stake, the node makes a coinbase for it, and
`validate_pos_block` looks at the block on the same chain.  The wallet and the validator agree about
the kernel and the age of a coin.  They disagree about three things:

* the node's `scan_pos` tries every second, and a block may only have a multiple of `POS_SCAN_STEP`;
* a coin that is locked until a time is staked, after the first hard fork always and before it when
  the time has come, and a PoS coinbase may only spend coins that are locked by height;
* `m_last_pow_block_h` is not taken back when blocks are detached, so that a coin may be staked that is
  younger than the last PoW block.
-/

namespace Chinet

open OrderedSearch PartialSteps

/-! ## The minted block -/

structure MinerDestination where
  amount : UInt64
  unlockTime : Nat

/-- What a PoS coinbase holds besides its stake: the key of the transaction, the nonce, the padding, the
reward, the targets of the outputs, the attachment with the time, and the signature. -/
structure MintedParts where
  txKey : PublicKey
  extraNonce : ByteString
  padding : ByteString
  rewardAmounts : List UInt64
  target : Nat → TxoutTarget
  services : List (Nat × ByteString)
  signature : List Signature

/-- The destinations of a PoS coinbase: the reward, and the stake at the end. -/
def posDestinations (height : Nat) (rewardAmounts : List UInt64) (pe : PosEntry) :
    List MinerDestination :=
  let locked : Bool := pe.stakeUnlockTime ≠ 0 ∧
    pe.stakeUnlockTime > height + currencyMinedMoneyUnlockWindow
  rewardAmounts.map (fun amount => ⟨amount, if locked then height + currencyMinedMoneyUnlockWindow else 0⟩) ++
    [⟨pe.amount, if locked then pe.stakeUnlockTime else 0⟩]

/-- `apply_unlock_time`. -/
def applyUnlockTime (destinations : List MinerDestination) : List PayloadItem :=
  if destinations.any (·.unlockTime ≠ 0) then
    [.unlockTime2 (destinations.map MinerDestination.unlockTime)]
  else []

/-- `construct_miner_tx` for a stake, with the attachments that the wallet adds. -/
def constructPosMinerTx (height : Nat) (pe : PosEntry) (parts : MintedParts) : Transaction :=
  let destinations := posDestinations height parts.rewardAmounts pe
  let unlockTime2 := applyUnlockTime destinations
  { version := currentTransactionVersion
    extra := [.publicKey parts.txKey] ++
      (if parts.extraNonce = [] then [] else [.userData parts.extraNonce]) ++ unlockTime2 ++
      [.padding parts.padding] ++
      (if unlockTime2 = [] then [.unlockTime (height + currencyMinedMoneyUnlockWindow)] else []) ++
      parts.services.map fun service => .other service.1 service.2
    vin := [.gen height, .toKey {
      amount := pe.amount
      keyOffsets := [.globalIndex (UInt64.ofNat pe.index)]
      kImage := pe.keyimage
      etcDetails := [] }]
    vout := destinations.mapIdx fun i d => ⟨d.amount, parts.target i⟩
    signatures := [parts.signature]
    attachment := [] }

/-- The block that `build_minted_block` makes of a template. -/
def mintedBlock (template : Block) (height : Nat) (pe : PosEntry) (ts : Nat) (parts : MintedParts) :
    Block :=
  { template with
    timestamp := ts
    minerTx := constructPosMinerTx height pe parts }

/-! ## Its unlock times -/

section

variable {height : Nat} {pe : PosEntry} {parts : MintedParts}

theorem findSome?_services (services : List (Nat × ByteString)) :
    (services.map fun service => PayloadItem.other service.1 service.2).findSome?
      PayloadItem.asUnlockTime? = none := by
  rw [List.findSome?_eq_none_iff]
  intro item hitem
  obtain ⟨service, -, rfl⟩ := List.mem_map.mp hitem
  rfl

/-- A stake that is locked for longer than the reward gets an unlock time of its own. -/
theorem constructPosMinerTx_locked
    (h : pe.stakeUnlockTime > height + currencyMinedMoneyUnlockWindow) :
    majorUnlockTime (constructPosMinerTx height pe parts).toTransactionPrefix = 0 ∧
      unlockTimeArray (constructPosMinerTx height pe parts).toTransactionPrefix =
        (posDestinations height parts.rewardAmounts pe).map MinerDestination.unlockTime := by
  have hunlock2 : applyUnlockTime (posDestinations height parts.rewardAmounts pe) =
      [.unlockTime2
        ((posDestinations height parts.rewardAmounts pe).map MinerDestination.unlockTime)] := by
    rw [applyUnlockTime, if_pos]
    have hne : pe.stakeUnlockTime ≠ 0 := by omega
    simp [posDestinations, h, hne]
  rw [majorUnlockTime, unlockTimeArray, constructPosMinerTx]
  dsimp only
  rw [hunlock2]
  constructor
  · split
    · simp [List.findSome?_cons, PayloadItem.asUnlockTime?, findSome?_services]
    · simp [List.findSome?_cons, PayloadItem.asUnlockTime?, findSome?_services]
  · split
    · simp [List.findSome?_cons, PayloadItem.asUnlockTime2?]
    · simp [List.findSome?_cons, PayloadItem.asUnlockTime2?]

theorem constructPosMinerTx_unlocked
    (h : pe.stakeUnlockTime ≤ height + currencyMinedMoneyUnlockWindow) :
    majorUnlockTime (constructPosMinerTx height pe parts).toTransactionPrefix =
      height + currencyMinedMoneyUnlockWindow := by
  have hunlock2 : applyUnlockTime (posDestinations height parts.rewardAmounts pe) = [] := by
    rw [applyUnlockTime, if_neg]
    simp [posDestinations, Nat.not_lt.mpr h]
  rw [majorUnlockTime, constructPosMinerTx]
  dsimp only
  rw [hunlock2]
  split
  · simp [List.findSome?_cons, PayloadItem.asUnlockTime?]
  · simp [List.findSome?_cons, PayloadItem.asUnlockTime?]

/-- The outputs whose unlock value reaches a bound, by their destinations. -/
theorem lockedOuts_destinations {bound : Nat} (destinations : List MinerDestination)
    (target : Nat → TxoutTarget) :
    (((destinations.map MinerDestination.unlockTime).zip
      (destinations.mapIdx fun i d => (⟨d.amount, target i⟩ : TxOut))).filter (bound ≤ ·.1)).map
        (·.2.amount) =
      (destinations.filter (bound ≤ ·.unlockTime)).map MinerDestination.amount := by
  induction destinations generalizing target with
  | nil => rfl
  | cons d rest ih =>
      rw [List.map_cons, List.mapIdx_cons, List.zip_cons_cons]
      by_cases hbound : bound ≤ d.unlockTime
      · rw [List.filter_cons_of_pos (by simpa using hbound),
          List.filter_cons_of_pos (by simpa using hbound), List.map_cons, List.map_cons,
          ih fun i => target (i + 1)]
      · rw [List.filter_cons_of_neg (by simpa using hbound),
          List.filter_cons_of_neg (by simpa using hbound), ih fun i => target (i + 1)]

/-- The coinbase locks the stake for at least as long as it was. -/
theorem constructPosMinerTx_outs {env : Env} (hafter : env.isAfterHardfork1Zone height = true)
    (hheight : pe.stakeUnlockTime < currencyMaxBlockNumber) :
    validatePosCoinbaseOutsUnlockTime env (constructPosMinerTx height pe parts) pe.amount
      pe.stakeUnlockTime height = true := by
  rcases Nat.lt_or_ge (height + currencyMinedMoneyUnlockWindow) pe.stakeUnlockTime with hlong | hshort
  · obtain ⟨hmajor, harray⟩ := @constructPosMinerTx_locked height pe parts hlong
    have hlocked : (decide (pe.stakeUnlockTime ≠ 0 ∧
        pe.stakeUnlockTime > height + currencyMinedMoneyUnlockWindow)) = true := by
      rw [decide_eq_true_eq]
      omega
    have hall : ((posDestinations height parts.rewardAmounts pe).map
        MinerDestination.unlockTime).all shouldUnlockValueBeTreatedAsBlockHeight = true := by
      rw [List.all_eq_true]
      intro u hu
      obtain ⟨d, hd, rfl⟩ := List.mem_map.mp hu
      rw [posDestinations, hlocked] at hd
      rw [shouldUnlockValueBeTreatedAsBlockHeight, decide_eq_true_eq]
      rcases List.mem_append.mp hd with hreward | hstake
      · obtain ⟨amount, -, rfl⟩ := List.mem_map.mp hreward
        exact hlong.trans hheight
      · rw [List.mem_singleton.mp hstake]
        exact hheight
    have hstake : (posDestinations height parts.rewardAmounts pe).filter
        (pe.stakeUnlockTime ≤ ·.unlockTime) = [⟨pe.amount, pe.stakeUnlockTime⟩] := by
      rw [posDestinations, hlocked]
      simp [hlong]
    rw [validatePosCoinbaseOutsUnlockTime]
    dsimp only
    rw [if_neg (by rw [hmajor]; decide), harray, hafter, hall]
    have hsum := @lockedOuts_destinations pe.stakeUnlockTime
      (posDestinations height parts.rewardAmounts pe) parts.target
    rw [hstake] at hsum
    rw [constructPosMinerTx]
    dsimp only
    rw [hsum]
    simp
  · have hne : height + currencyMinedMoneyUnlockWindow ≠ 0 := Nat.succ_ne_zero (height + 9)
    rw [validatePosCoinbaseOutsUnlockTime]
    dsimp only
    rw [constructPosMinerTx_unlocked hshort, if_pos hne, decide_eq_true_eq]
    exact hshort

end

/-! ## A coin of a synchronized wallet -/

/-- The wallet knows the size of the chain, and each of its transfers is an output there. -/
structure Synchronized (db : Db) (w : StakingWallet) : Prop where
  size : w.blockchainCurrentSize = db.size
  words : db.size < 2 ^ 64
  outputs : ∀ td ∈ w.transfers, ∃ txId entry,
    resolveOutputRef db ((td.output?.map TxOut.amount).getD 0)
      (.globalIndex (UInt64.ofNat td.globalOutputIndex)) = some (txId, td.internalOutputIndex) ∧
    db.transactions.lookup txId = some entry ∧
    entry.tx.toTransactionPrefix = td.tx.toTransactionPrefix ∧
    entry.keeperBlockHeight = td.blockHeight

section

variable {env : Env} {db : Db} {w : StakingWallet}

/-- What `is_transfer_okay_for_pos` has made sure of. -/
theorem isTransferOkayForPos_eq_some {td : StakingTransfer} {stakeUnlockTime : Nat}
    (h : isTransferOkayForPos env w td = some stakeUnlockTime) :
    ∃ unlockTime,
      getTxUnlockTime td.tx.toTransactionPrefix td.internalOutputIndex = .ok unlockTime ∧
      td.blockHeight + walletDefaultTxSpendableAge ≤ w.blockchainCurrentSize ∧
      env.config.minCoinstakeAge < w.blockchainCurrentSize - td.blockHeight ∧
      (if env.isAfterHardfork1Zone w.blockchainCurrentSize then stakeUnlockTime = unlockTime
      else isTxSpendtimeUnlocked unlockTime w.blockchainCurrentSize w.coreTime = true ∧
        stakeUnlockTime = 0) := by
  rw [isTransferOkayForPos] at h
  split at h
  · cases h
  split at h
  · cases h
  rename_i unlocked hunlocked
  split at h
  · cases h
  rename_i hage
  split at h
  · cases h
  cases h
  rw [isTransferUnlockedForPos] at hunlocked
  split at hunlocked
  · cases hunlocked
  split at hunlocked
  · cases hunlocked
  rename_i hspendable
  split at hunlocked
  · cases hunlocked
  rename_i unlockTime hunlockTime
  refine ⟨unlockTime, hunlockTime, Nat.not_lt.mp hspendable, Nat.not_le.mp hage, ?_⟩
  split at hunlocked
  · rename_i hafter
    rw [if_pos hafter]
    exact (Option.some.inj hunlocked).symm
  · rename_i hbefore
    rw [if_neg hbefore]
    split at hunlocked
    · rename_i hopen
      exact ⟨hopen, (Option.some.inj hunlocked).symm⟩
    · cases hunlocked

theorem mem_getPosEntries {pe : PosEntry} (h : pe ∈ getPosEntries env w) :
    ∃ td stakeUnlockTime, w.transfers[pe.walletIndex]? = some td ∧
      isTransferOkayForPos env w td = some stakeUnlockTime ∧
      pe = td.posEntry pe.walletIndex stakeUnlockTime := by
  obtain ⟨⟨td, i⟩, hmem, hpe⟩ := List.mem_filterMap.mp h
  obtain ⟨stakeUnlockTime, hokay, rfl⟩ := Option.map_eq_some_iff.mp hpe
  refine ⟨td, stakeUnlockTime, ?_, hokay, rfl⟩
  exact List.mem_zipIdx_iff_getElem?.mp hmem

/-- A kernel at a whole step, for a coin that is locked by height and, after the first hard fork, not
younger than the last PoW block. -/
def StakeFits (env : Env) (db : Db) (w : StakingWallet) (pe : PosEntry) (ts : Nat) : Prop :=
  ts % posScanStep = 0 ∧ ∃ td unlockTime, w.transfers[pe.walletIndex]? = some td ∧
    getTxUnlockTime td.tx.toTransactionPrefix td.internalOutputIndex = .ok unlockTime ∧
    shouldUnlockValueBeTreatedAsBlockHeight unlockTime = true ∧
    (env.isAfterHardfork1Zone db.size = true →
      td.blockHeight ≤ getLastXBlockHeight db.headers false)

theorem coinstakeAge_of_le {size height : Nat} (hwords : size < 2 ^ 64) (hle : height + 1 ≤ size) :
    coinstakeAge size height = size - height - 1 := by
  rw [coinstakeAge]
  omega

/-- A lock by height does not depend on the time. -/
theorem isTxSpendtimeUnlocked_byHeight {unlockTime size now now' : Nat}
    (h : shouldUnlockValueBeTreatedAsBlockHeight unlockTime = true) :
    isTxSpendtimeUnlocked unlockTime size now = isTxSpendtimeUnlocked unlockTime size now' := by
  rw [shouldUnlockValueBeTreatedAsBlockHeight, decide_eq_true_eq] at h
  rw [isTxSpendtimeUnlocked, isTxSpendtimeUnlocked, if_pos h, if_pos h]

/-- The height and the unlock value of a coin that the wallet stakes. -/
theorem sourceAccepted_mintedBlock_iff {td : StakingTransfer} {pe : PosEntry}
    {walletIndex stakeUnlockTime unlockTime now ts : Nat} {template : Block} {parts : MintedParts}
    (hsync : Synchronized db w) (hokay : isTransferOkayForPos env w td = some stakeUnlockTime)
    (hpe : pe = td.posEntry walletIndex stakeUnlockTime)
    (hunlock : getTxUnlockTime td.tx.toTransactionPrefix td.internalOutputIndex = .ok unlockTime) :
    SourceAccepted env db now (mintedBlock template db.size pe ts parts) pe.amount td.blockHeight
        unlockTime ↔
      shouldUnlockValueBeTreatedAsBlockHeight unlockTime = true ∧
        (env.isAfterHardfork1Zone db.size = true →
          td.blockHeight ≤ getLastXBlockHeight db.headers false) := by
  obtain ⟨unlockTime', hunlock', hspendable, hage, hlock⟩ := isTransferOkayForPos_eq_some hokay
  rw [hunlock] at hunlock'
  cases hunlock'
  rw [hsync.size] at hspendable hage hlock
  rw [walletDefaultTxSpendableAge] at hspendable
  have hblock : getBlockHeight (mintedBlock template db.size pe ts parts) = db.size := rfl
  constructor
  · rintro ⟨hheight, hlast, -, -, -⟩
    exact ⟨hheight, hlast⟩
  · rintro ⟨hheight, hlast⟩
    refine ⟨hheight, hlast, ?_, ?_, ?_⟩
    · rw [hblock]
      intro hafter
      rw [if_pos hafter] at hlock
      have hstake : pe.stakeUnlockTime = unlockTime := by
        rw [hpe, ← hlock]
        rfl
      rw [shouldUnlockValueBeTreatedAsBlockHeight, decide_eq_true_eq, ← hstake] at hheight
      rw [← hstake]
      exact constructPosMinerTx_outs hafter hheight
    · rw [hblock]
      intro hbefore
      rw [hbefore, if_neg Bool.false_ne_true] at hlock
      rw [isTxSpendtimeUnlocked_byHeight hheight]
      exact hlock.1
    · rw [coinstakeAge_of_le hsync.words (by omega)]
      omega

/-- A coin of the wallet whose kernel passes: when the block that is minted with it is accepted. -/
theorem stakeAccepted_mintedBlock_iff {sm : StakeModifier} {basicDiff : WideDifficulty}
    {pe : PosEntry} {now ts : Nat} {template : Block} {parts : MintedParts}
    (hsync : Synchronized db w) (hsm : buildStakeModifier env db.headers [] 0 = .ok sm)
    (hmem : pe ∈ getPosEntries env w) (hkernel : tryKernel env.crypto basicDiff sm pe ts = .ok true) :
    StakeAccepted env db now (mintedBlock template db.size pe ts parts) basicDiff ↔
      StakeFits env db w pe ts := by
  obtain ⟨td, stakeUnlockTime, htd, hokay, hpe⟩ := mem_getPosEntries hmem
  obtain ⟨txId, entry, hresolve, hentry, htx, hkeeper⟩ :=
    hsync.outputs td (List.mem_of_getElem? htd)
  obtain ⟨unlockTime, hunlock, -⟩ := isTransferOkayForPos_eq_some hokay
  have hamount : pe.amount = (td.output?.map TxOut.amount).getD 0 := by
    rw [hpe]
    rfl
  have hindex : pe.index = td.globalOutputIndex := by
    rw [hpe]
    rfl
  -- the staked input of the block, and the output it names
  have hstake : coinstakeInput? (mintedBlock template db.size pe ts parts).minerTx = some {
      amount := pe.amount
      keyOffsets := [.globalIndex (UInt64.ofNat pe.index)]
      kImage := pe.keyimage
      etcDetails := [] } := rfl
  have houtput : StakeOutput db {
      amount := pe.amount
      keyOffsets := [.globalIndex (UInt64.ofNat pe.index)]
      kImage := pe.keyimage
      etcDetails := [] } entry td.internalOutputIndex := by
    refine ⟨UInt64.ofNat pe.index, txId, rfl, ?_, hentry⟩
    rw [hamount, hindex]
    exact hresolve
  have hsource := @sourceAccepted_mintedBlock_iff env db w td pe pe.walletIndex stakeUnlockTime
    unlockTime now ts template parts hsync hokay hpe hunlock
  constructor
  · rintro ⟨hstep, -, input, entry', n, unlockTime', hstake', houtput', hunlock', haccepted⟩
    rw [hstake] at hstake'
    cases hstake'
    obtain ⟨rfl, rfl⟩ := houtput.unique houtput'
    rw [htx, hunlock] at hunlock'
    cases hunlock'
    rw [hkeeper] at haccepted
    exact ⟨hstep, td, unlockTime, htd, hunlock, hsource.mp haccepted⟩
  · rintro ⟨hstep, td', unlockTime', htd', hunlock', hfits⟩
    rw [htd] at htd'
    cases htd'
    rw [hunlock] at hunlock'
    cases hunlock'
    rw [tryKernel] at hkernel
    split at hkernel
    · cases hkernel
    · rename_i hne
      refine ⟨hstep, ⟨sm, _, pe.amount, hsm, rfl, hne, Except.ok.inj hkernel⟩, _, entry,
        td.internalOutputIndex, unlockTime, hstake, houtput, ?_, ?_⟩
      · rw [htx]
        exact hunlock
      · rw [hkeeper]
        exact hsource.mpr hfits

/-! ## The two scans -/

/-- What `fill_mining_context` asks the node for. -/
def miningContext (env : Env) (db : Db) (w : StakingWallet) (sm : StakeModifier)
    (starterTimestamp : UInt64) : MiningContext where
  posEntries := getPosEntries env w
  starterTimestamp := starterTimestamp
  basicDiff := getNextDiffConditional env db.headers true
  sm := sm

/-- Whatever the rest of a block that is minted for a find, the find is accepted. -/
def FindAccepted (env : Env) (db : Db) (w : StakingWallet) (i ts : Nat) : Prop :=
  ∃ pe, (getPosEntries env w)[i]? = some pe ∧ ∀ now template parts,
    StakeAccepted env db now (mintedBlock template db.size pe ts parts)
      (getNextDiffConditional env db.headers true)

def NodeScanSound (env : Env) (db : Db) (w : StakingWallet) : Prop :=
  ∀ i ts, nodeScanPos env db.headers (getPosEntries env w) = .ok (.ok (some (i, ts))) →
    FindAccepted env db w i ts

def WalletScanSound (env : Env) (db : Db) (w : StakingWallet) (sm : StakeModifier)
    (starterTimestamp coreTime : UInt64) : Prop :=
  ∀ signals r i ts, walletScanPos env.crypto (miningContext env db w sm starterTimestamp) signals
      coreTime = .ok r → r.found = some (i, ts) → FindAccepted env db w i ts

/-- The first kernel of a wallet's coins, in the order of some timestamps. -/
def FirstKernel (env : Env) (db : Db) (w : StakingWallet) (sm : StakeModifier) (times : List Nat)
    (i : Nat) (pe : PosEntry) (ts : Nat) : Prop :=
  IsFirstOf (tryKernel env.crypto (getNextDiffConditional env db.headers true) sm) times
    (getPosEntries env w) i pe ts

theorem findAccepted_iff {sm : StakeModifier} {times : List Nat} {i ts : Nat} {pe : PosEntry}
    (hsync : Synchronized db w) (hsm : buildStakeModifier env db.headers [] 0 = .ok sm)
    (hfirst : FirstKernel env db w sm times i pe ts) :
    FindAccepted env db w i ts ↔ StakeFits env db w pe ts := by
  have hentry := hfirst.entry
  have hkernel : tryKernel env.crypto (getNextDiffConditional env db.headers true) sm pe ts =
      .ok true := hfirst.isFirst.passes
  have hmem := List.mem_of_getElem? hentry
  constructor
  · rintro ⟨pe', hpe', haccepted⟩
    rw [hentry] at hpe'
    cases hpe'
    have hblock := haccepted 0 ⟨0, 0, 0, 0, 0, 0, ⟨⟨0, [], [], []⟩, [], []⟩, []⟩
      ⟨0, [], [], [], fun _ => .toKey ⟨0, 0⟩, [], []⟩
    exact (stakeAccepted_mintedBlock_iff hsync hsm hmem hkernel).mp hblock
  · intro hfits
    refine ⟨pe, hentry, ?_⟩
    intro now template parts
    exact (stakeAccepted_mintedBlock_iff hsync hsm hmem hkernel).mpr hfits

theorem nodeScanSound_iff {sm : StakeModifier} (hsync : Synchronized db w)
    (hsm : buildStakeModifier env db.headers [] 0 = .ok sm) :
    NodeScanSound env db w ↔ ∀ i pe ts, FirstKernel env db w sm (scanSeconds db.headers) i pe ts →
      StakeFits env db w pe ts := by
  constructor
  · intro hsound i pe ts hfirst
    rw [← findAccepted_iff hsync hsm hfirst]
    exact hsound i ts ((nodeScanPos_eq_some_iff hsm).mpr ⟨pe, hfirst⟩)
  · intro hfits i ts hfound
    obtain ⟨pe, hfirst⟩ := (nodeScanPos_eq_some_iff hsm).mp hfound
    rw [findAccepted_iff hsync hsm hfirst]
    exact hfits i pe ts hfirst

theorem walletScanSound_iff {sm : StakeModifier} {starterTimestamp coreTime : UInt64}
    (hsync : Synchronized db w) (hsm : buildStakeModifier env db.headers [] 0 = .ok sm) :
    WalletScanSound env db w sm starterTimestamp coreTime ↔
      (scanFrom starterTimestamp < scanTo coreTime → ∀ i pe ts,
        FirstKernel env db w sm (scanTimes starterTimestamp coreTime) i pe ts →
          StakeFits env db w pe ts) := by
  constructor
  · intro hsound hlt i pe ts hfirst
    rw [← findAccepted_iff hsync hsm hfirst]
    obtain ⟨signals, r, hr, hfound⟩ := (@walletScanPos_found_iff env.crypto
      (miningContext env db w sm starterTimestamp) coreTime i ts).mpr ⟨hlt, pe, hfirst⟩
    exact hsound signals r i ts hr hfound
  · intro hfits signals r i ts hr hfound
    obtain ⟨hlt, pe, hfirst⟩ := (@walletScanPos_found_iff env.crypto
      (miningContext env db w sm starterTimestamp) coreTime i ts).mp ⟨signals, r, hr, hfound⟩
    rw [findAccepted_iff hsync hsm hfirst]
    exact hfits hlt i pe ts hfirst

/-- Both scans find only stakes that are accepted when the first kernel in the order of their tries
fits: for every synchronized wallet, every tip with a PoW block, and every interval. -/
theorem stakeScans_sound_iff {sm : StakeModifier} (hsync : Synchronized db w)
    (hsm : buildStakeModifier env db.headers [] 0 = .ok sm) :
    (NodeScanSound env db w ↔ ∀ i pe ts,
      FirstKernel env db w sm (scanSeconds db.headers) i pe ts → StakeFits env db w pe ts) ∧
    ∀ starterTimestamp coreTime,
      (WalletScanSound env db w sm starterTimestamp coreTime ↔
        (scanFrom starterTimestamp < scanTo coreTime → ∀ i pe ts,
          FirstKernel env db w sm (scanTimes starterTimestamp coreTime) i pe ts →
            StakeFits env db w pe ts)) := by
  refine ⟨nodeScanSound_iff hsync hsm, ?_⟩
  intro starterTimestamp coreTime
  exact walletScanSound_iff hsync hsm

end

/-! ## Three coins -/

/-- The primitives of `oneKernelCrypto`, with the kernel hash zero at every timestamp. -/
def everyKernelEnv : Env where
  crypto := { oneKernelCrypto 0 with kernelHash _ := 0 }
  config := { getDefaultCoreRuntimeConfig with hardFork01StartsAfterHeight := 0 }
  checkpoints := []
  altBlocksOrder _ := []

/-- A chain of blocks at a distance of `spacing` seconds, with PoS blocks above the height `lastPow`. -/
def stakeChainBlock (spacing lastPow height : Nat) : BlockExtendedInfo where
  bl := {
    majorVersion := 0
    minorVersion := 0
    timestamp := spacing * height
    prevId := 0
    nonce := 0
    flags := if height ≤ lastPow then 0 else currencyBlockFlagPosBlock
    minerTx := {
      version := 1
      extra := []
      vin := [.gen height, .toKey { amount := 1, keyOffsets := [], kImage := 0, etcDetails := [] }]
      vout := []
      signatures := []
      attachment := [] }
    txHashes := [] }
  height := height
  cumulativeDiffAdjusted := 0
  cumulativeDiffPrecise := 0
  cumulativeDiffPreciseAdjusted := 0
  difficulty := 1
  stakeHash := 0
  blockCumulativeSize := 0
  alreadyGeneratedCoins := 0
  thisBlockTxFeeMedian := 0
  effectiveTxFeeMedian := 0

/-- The transaction of a coin with an unlock value. -/
def stakeCoin (unlockTime : Nat) : Transaction where
  version := 1
  vin := []
  extra := [.unlockTime unlockTime]
  vout := [⟨100, .toKey { key := 1, mixAttr := 0 }⟩]
  signatures := []
  attachment := []

/-- Thirteen blocks, with the coin in the one of the height two. -/
def stakeDb (spacing lastPow unlockTime : Nat) : Db where
  blocks := (List.range 13).map (stakeChainBlock spacing lastPow)
  blocksIndex := ∅
  transactions := Finmap.insert 5 {
    tx := stakeCoin unlockTime
    keeperBlockHeight := 2
    globalOutputIndexes := [0]
    spentFlags := [false] } ∅
  spentKeys := ∅
  outputs := fun amount => if amount = 100 then [⟨5, 0⟩] else []
  multisigOuts := ∅
  aliases := ∅
  addrToAlias := ∅
  perBlockGindexIncs := ∅

def stakeTransfer (unlockTime : Nat) : StakingTransfer where
  tx := stakeCoin unlockTime
  blockHeight := 2
  internalOutputIndex := 0
  flags := 0
  globalOutputIndex := 0
  keyImage := 3
  blockTimestamp := 0

/-- The owner of the coin, who last saw a PoW block at the top. -/
def stakeWallet (unlockTime : Nat) : StakingWallet where
  transfers := [stakeTransfer unlockTime]
  blockchainCurrentSize := 13
  coreTime := 0
  lastPowBlockH := 12

def stakeEntry (unlockTime : Nat) : PosEntry where
  amount := 100
  index := 0
  keyimage := 3
  blockTimestamp := 0
  stakeUnlockTime := unlockTime
  walletIndex := 0

theorem stakeCoin_unlockTime (unlockTime : Nat) :
    getTxUnlockTime (stakeCoin unlockTime).toTransactionPrefix 0 = .ok unlockTime := by
  have hmajor : majorUnlockTime (stakeCoin unlockTime).toTransactionPrefix = unlockTime := rfl
  by_cases hzero : unlockTime = 0
  · subst hzero
    rfl
  · rw [getTxUnlockTime, hmajor, if_pos hzero]

theorem stakeWallet_entries (unlockTime : Nat) :
    getPosEntries everyKernelEnv (stakeWallet unlockTime) = [stakeEntry unlockTime] := by
  have hunlocked : isTransferUnlockedForPos everyKernelEnv (stakeWallet unlockTime)
      (stakeTransfer unlockTime) = some unlockTime := by
    have hunlock : getTxUnlockTime (stakeTransfer unlockTime).tx.toTransactionPrefix
        (stakeTransfer unlockTime).internalOutputIndex = .ok unlockTime :=
      stakeCoin_unlockTime unlockTime
    have hafter : everyKernelEnv.isAfterHardfork1Zone (stakeWallet unlockTime).blockchainCurrentSize =
        true := rfl
    rw [isTransferUnlockedForPos, hunlock]
    dsimp only
    rw [hafter, if_pos rfl]
    simp [stakeTransfer, stakeWallet, walletTransferDetailFlagBlocked, walletDefaultTxSpendableAge]
  have hokay : isTransferOkayForPos everyKernelEnv (stakeWallet unlockTime)
      (stakeTransfer unlockTime) = some unlockTime := by
    have hage : everyKernelEnv.config.minCoinstakeAge = 10 := rfl
    rw [isTransferOkayForPos, hunlocked, hage]
    simp [TransferDetails.isSpendable, stakeTransfer, stakeWallet]
  have htransfers : (stakeWallet unlockTime).transfers.zipIdx = [(stakeTransfer unlockTime, 0)] := rfl
  rw [getPosEntries, htransfers, List.filterMap_cons, hokay]
  rfl

theorem stakeWallet_synchronized (spacing lastPow unlockTime : Nat) :
    Synchronized (stakeDb spacing lastPow unlockTime) (stakeWallet unlockTime) where
  size := by
    rw [Db.size, stakeDb]
    simp [stakeWallet]
  words := by
    rw [Db.size, stakeDb]
    simp
  outputs td htd := by
    obtain rfl := List.mem_singleton.mp htd
    exact ⟨5, _, rfl, Finmap.lookup_insert _, rfl, rfl⟩

/-- Every kernel of the coin passes. -/
theorem everyKernel_passes (basicDiff : WideDifficulty) (sm : StakeModifier) (unlockTime ts : Nat) :
    tryKernel everyKernelEnv.crypto basicDiff sm (stakeEntry unlockTime) ts = .ok true := by
  have hhash (d : WideDifficulty) : checkHash 0 d = true := by
    rw [checkHash]
    split
    · simp [checkHashNarrow, hashWord, cadd, cadc]
    · simp [hashWord]
  exact congrArg Except.ok (hhash _)

/-- The first kernel is the first time that is tried. -/
theorem stakeWallet_firstKernel {spacing lastPow unlockTime first i ts : Nat} {sm : StakeModifier}
    {rest : List Nat} {pe : PosEntry} :
    FirstKernel everyKernelEnv (stakeDb spacing lastPow unlockTime) (stakeWallet unlockTime) sm
        (first :: rest) i pe ts ↔ i = 0 ∧ pe = stakeEntry unlockTime ∧ ts = first := by
  rw [FirstKernel, stakeWallet_entries]
  constructor
  · rintro ⟨before, after, heq, rfl, -, hfirst⟩
    cases before with
    | nil =>
        obtain ⟨rfl, -⟩ := List.cons.inj heq
        rw [isFirst_cons_of_passes (everyKernel_passes _ _ _ _)] at hfirst
        exact ⟨rfl, rfl, hfirst.symm⟩
    | cons a before =>
        have hlength := congrArg List.length heq
        simp at hlength
  · rintro ⟨rfl, rfl, rfl⟩
    refine ⟨[], [], rfl, rfl, List.forall_mem_nil _, ?_⟩
    rw [isFirst_cons_of_passes (everyKernel_passes _ _ _ _)]

theorem stakeFits_stakeWallet_iff {spacing lastPow unlockTime ts : Nat} :
    StakeFits everyKernelEnv (stakeDb spacing lastPow unlockTime) (stakeWallet unlockTime)
        (stakeEntry unlockTime) ts ↔
      ts % posScanStep = 0 ∧ unlockTime < currencyMaxBlockNumber ∧
        2 ≤ getLastXBlockHeight (stakeDb spacing lastPow unlockTime).headers false := by
  have hafter : everyKernelEnv.isAfterHardfork1Zone (stakeDb spacing lastPow unlockTime).size = true := by
    rw [← (stakeWallet_synchronized spacing lastPow unlockTime).size]
    rfl
  constructor
  · rintro ⟨hstep, td, unlockTime', htd, hunlock, hheight, hlast⟩
    cases htd
    rw [stakeTransfer, stakeCoin_unlockTime] at hunlock
    cases hunlock
    exact ⟨hstep, of_decide_eq_true hheight, hlast hafter⟩
  · rintro ⟨hstep, hheight, hlast⟩
    exact ⟨hstep, stakeTransfer unlockTime, unlockTime, rfl, stakeCoin_unlockTime unlockTime,
      decide_eq_true hheight, fun _ => hlast⟩

/-- The first try of each scan decides. -/
theorem stakeWallet_fits_iff {spacing lastPow unlockTime first : Nat} {sm : StakeModifier}
    {rest : List Nat} :
    (∀ i pe ts, FirstKernel everyKernelEnv (stakeDb spacing lastPow unlockTime)
        (stakeWallet unlockTime) sm (first :: rest) i pe ts →
      StakeFits everyKernelEnv (stakeDb spacing lastPow unlockTime) (stakeWallet unlockTime) pe ts) ↔
      first % posScanStep = 0 ∧ unlockTime < currencyMaxBlockNumber ∧
        2 ≤ getLastXBlockHeight (stakeDb spacing lastPow unlockTime).headers false := by
  rw [← stakeFits_stakeWallet_iff]
  constructor
  · intro h
    exact h 0 _ _ (stakeWallet_firstKernel.mpr ⟨rfl, rfl, rfl⟩)
  · intro hfits i pe ts hfirst
    obtain ⟨rfl, rfl, rfl⟩ := stakeWallet_firstKernel.mp hfirst
    exact hfits

/-- With blocks at whole steps and the last of them a PoW block, the finds of both scans are accepted. -/
theorem stakeScans_sound_whole_steps :
    NodeScanSound everyKernelEnv (stakeDb 15 12 5) (stakeWallet 5) ∧
      WalletScanSound everyKernelEnv (stakeDb 15 12 5) (stakeWallet 5) ⟨0, posStarterKernelHash⟩ 0 0 := by
  obtain ⟨hnode, hwallet⟩ := @stakeScans_sound_iff everyKernelEnv (stakeDb 15 12 5) (stakeWallet 5)
    ⟨0, posStarterKernelHash⟩ (stakeWallet_synchronized 15 12 5) rfl
  rw [hnode, hwallet]
  constructor
  · exact (@stakeWallet_fits_iff 15 12 5 180 _ _).mpr ⟨by decide, by decide, by decide⟩
  · intro _
    exact (@stakeWallet_fits_iff 15 12 5 600 _ _).mpr ⟨by decide, by decide, by decide⟩

/-- A last block between two steps, a coin that is locked until a time, and a coin above the last PoW
block. -/
theorem stakeScans_not_sound :
    ¬ NodeScanSound everyKernelEnv (stakeDb 1 12 5) (stakeWallet 5) ∧
      ¬ WalletScanSound everyKernelEnv (stakeDb 15 12 600000000) (stakeWallet 600000000)
        ⟨0, posStarterKernelHash⟩ 0 0 ∧
      ¬ WalletScanSound everyKernelEnv (stakeDb 15 1 5) (stakeWallet 5) ⟨0, 0⟩ 0 0 := by
  refine ⟨?_, ?_, ?_⟩
  · rw [@nodeScanSound_iff everyKernelEnv (stakeDb 1 12 5) (stakeWallet 5) ⟨0, posStarterKernelHash⟩
      (stakeWallet_synchronized 1 12 5) rfl]
    intro h
    have hfits := (@stakeWallet_fits_iff 1 12 5 12 _ _).mp h
    exact absurd hfits.1 (by decide)
  · rw [@walletScanSound_iff everyKernelEnv (stakeDb 15 12 600000000) (stakeWallet 600000000)
      ⟨0, posStarterKernelHash⟩ 0 0 (stakeWallet_synchronized 15 12 600000000) rfl]
    intro h
    have hfits := (@stakeWallet_fits_iff 15 12 600000000 600 _ _).mp (h (by decide))
    exact absurd hfits.2.1 (by decide)
  · rw [@walletScanSound_iff everyKernelEnv (stakeDb 15 1 5) (stakeWallet 5) ⟨0, 0⟩ 0 0
      (stakeWallet_synchronized 15 1 5) rfl]
    intro h
    have hfits := (@stakeWallet_fits_iff 15 1 5 600 _ _).mp (h (by decide))
    exact absurd hfits.2.2 (by decide)

end Chinet
