import Chinet.Storage.State

/-!
# Checking the inputs of a transaction

`check_tx_inputs` and what it calls, against the database of the main chain.
Each input is checked on its own, against the state before the transaction.

The checks that only the signatures can fail are skipped inside the checkpoint
zone, which is the argument `inCheckpointZone` (`m_is_in_checkpoint_zone`).
-/

namespace Chinet

variable (env : Env)

/-! ## Hard forks and expiration -/

def isAllowedBeforeHardfork1 : PayloadItem → Bool
  | .unlockTime2 _ => false
  | _ => true

def isAllowedBeforeHardfork2 : PayloadItem → Bool
  | .payer _ => false
  | .receiver _ => false
  | .aliasEntry _ => false
  | _ => true

def validateTxForHardforkSpecificTerms (tx : Transaction) (blockHeight : Nat) : Bool :=
  (env.isAfterHardfork3Zone blockHeight ||
      (tx.vin.all (!·.isHtlc) && tx.vout.all (!·.target.isHtlc))) &&
    (env.isAfterHardfork1Zone blockHeight || tx.extra.all isAllowedBeforeHardfork1) &&
    (env.isAfterHardfork2Zone blockHeight ||
      (tx.extra.all isAllowedBeforeHardfork2 && tx.attachment.all isAllowedBeforeHardfork2))

/-- `get_tx_expiration_median`. -/
def getTxExpirationMedian (db : Db) : Nat :=
  median ((db.blocks.drop (db.size - txExpirationTimestampCheckWindow)).map (·.bl.timestamp))

/-! ## Referenced outputs -/

def TxoutHtlc.isExpired (out : TxoutHtlc) (topMinusSourceHeight : Nat) : Bool :=
  !(out.expiration > topMinusSourceHeight)

/-- An HTLC output takes an HTLC input before and a key input after its
expiration; a key output takes no HTLC input. -/
def isOutputAllowedForInput (out : TxoutTarget) (input : Txin) (topMinusSourceHeight : Nat) : Bool :=
  match out with
  | .toKey _ => !input.isHtlc
  | .htlc htlc => if htlc.isExpired topMinusSourceHeight then input.isToKey else input.isHtlc
  | .multisig _ => false

/-- The transaction and output number an output reference stands for. -/
def resolveOutputRef (db : Db) (amount : UInt64) : TxoutRef → Option (Hash × Nat)
  | .refById txId n => some (txId, n)
  | .globalIndex index =>
      (db.outputs amount)[index.toNat]?.map fun entry => (entry.txId, entry.outNo)

/-- What `scan_outputkeys_for_indexes` collects with `outputs_visitor`. -/
structure ScanResult where
  outputKeys : List PublicKey
  htlcOuts : List TxoutHtlc
  maxRelatedBlockHeight : Nat
  sourceMaxUnlockTimeForPosCoinbase : Nat
deriving DecidableEq

/-- `is_coinbase(validated_tx) && is_pos_block(validated_tx)`. -/
def isPosCoinbase (tx : Transaction) : Bool :=
  isCoinbase tx.toTransactionPrefix && isPosTransaction tx.toTransactionPrefix

section

variable (db : Db) (now : Nat)

/-- `outputs_visitor::handle_output` for a key or HTLC output: the unlock time
of the source, or the maximum of them for a PoS coinbase. -/
def handleOutputUnlockTime (validatedTx : Transaction) (sourceUnlockTime sourceMaxUnlockTime : Nat) :
    Except Failure Nat :=
  if isPosCoinbase validatedTx then do
    require (shouldUnlockValueBeTreatedAsBlockHeight sourceUnlockTime)
    return max sourceMaxUnlockTime sourceUnlockTime
  else do
    require (isTxSpendtimeUnlocked sourceUnlockTime db.size now)
    return sourceMaxUnlockTime

/-- The restrictions an output puts on the input that refers to it, and the key
the input has to sign for. -/
def outputKeyForInput (target : TxoutTarget) (spentFlag : Option Bool) (ringSize : Nat)
    (topMinusSourceHeight : Nat) : Except Failure (PublicKey × List TxoutHtlc) :=
  match target with
  | .toKey out => do
      require (isMixattrApplicableForFakeOutsCounter out.mixAttr (ringSize - 1))
      return (out.key, [])
  | .htlc out => do
      require (spentFlag = some false)
      return (if out.isExpired topMinusSourceHeight then out.pkeyRefund else out.pkeyRedeem, [out])
  | .multisig _ => .error .rejected

/-- One turn of the loop of `scan_outputkeys_for_indexes`. -/
def scanOutput (validatedTx : Transaction) (input : Txin) (amount : UInt64) (ringSize : Nat)
    (ref : TxoutRef) (acc : ScanResult) : Except Failure ScanResult :=
  match resolveOutputRef db amount ref with
  | none => .error .rejected
  | some (txId, n) =>
      match db.transactions.lookup txId with
      | none => .error .rejected
      | some entry =>
          match entry.tx.vout[n]? with
          | none => .error .rejected
          | some out => do
              let topMinusSourceHeight := db.size - entry.keeperBlockHeight
              require (isOutputAllowedForInput out.target input topMinusSourceHeight)
              let (key, htlcs) ←
                outputKeyForInput out.target entry.spentFlags[n]? ringSize topMinusSourceHeight
              let unlockTime ← getTxUnlockTime entry.tx.toTransactionPrefix n
              let maxUnlockTime ← handleOutputUnlockTime db now validatedTx unlockTime
                acc.sourceMaxUnlockTimeForPosCoinbase
              return {
                outputKeys := acc.outputKeys ++ [key]
                htlcOuts := acc.htlcOuts ++ htlcs
                maxRelatedBlockHeight := max acc.maxRelatedBlockHeight entry.keeperBlockHeight
                sourceMaxUnlockTimeForPosCoinbase := maxUnlockTime }

def scanOutputs (validatedTx : Transaction) (input : Txin) (amount : UInt64) (ringSize : Nat) :
    List TxoutRef → ScanResult → Except Failure ScanResult
  | [], acc => .ok acc
  | ref :: rest, acc => do
      let acc ← scanOutput db now validatedTx input amount ringSize ref acc
      scanOutputs validatedTx input amount ringSize rest acc

/-- `scan_outputkeys_for_indexes`. -/
def scanOutputkeysForIndexes (validatedTx : Transaction) (input : Txin) (part : TxinToKey)
    (maxRelatedBlockHeight : Nat) : Except Failure ScanResult := do
  require (db.outputs part.amount != [])
  let absoluteOffsets ← relativeOutputOffsetsToAbsolute part.keyOffsets
  scanOutputs db now validatedTx input part.amount part.keyOffsets.length absoluteOffsets
    { outputKeys := [], htlcOuts := [], maxRelatedBlockHeight
      sourceMaxUnlockTimeForPosCoinbase := 0 }

end

/-! ## Signatures -/

/-- The attachment rules both kinds of input share. -/
def checkInputAttachments (tx : Transaction) (inIndex : Nat) (etcDetails : List TxinEtcDetails) :
    Check :=
  let info := etcDetails.findSome? TxinEtcDetails.asAttachmentInfo?
  if isSignatureModeSeparate tx.toTransactionPrefix then
    require (validateAttachmentInfo env.crypto info tx.attachment (inIndex != tx.vin.length - 1))
  else require info.isNone

/-- The last input of a separately signed transaction carries one more signature. -/
def needToCheckExtraSign (tx : Transaction) (inIndex : Nat) : Bool :=
  isSignatureModeSeparate tx.toTransactionPrefix && inIndex == tx.vin.length - 1

def checkExtraSign (tx : Transaction) (txPrefixHash : Hash) (sig : List Signature) : Bool :=
  match sig.getLast? with
  | none => false
  | some s =>
      env.crypto.checkSignature txPrefixHash (getTxPubKeyFromExtra tx.toTransactionPrefix) s

/-- `check_input_signature` on the keys of the referenced outputs. -/
def checkInputSignature (inCheckpointZone : Bool) (tx : Transaction) (inIndex : Nat)
    (kImage : KeyImage) (etcDetails : List TxinEtcDetails) (txPrefixHash : Hash)
    (sig : List Signature) (outputKeys : List PublicKey) : Check :=
  if inCheckpointZone then .ok ()
  else do
    checkInputAttachments env tx inIndex etcDetails
    let extra := needToCheckExtraSign tx inIndex
    require (outputKeys.length + (if extra then 1 else 0) = sig.length)
    let hash := preparePrefixHashForSign env.crypto tx inIndex txPrefixHash
    require (hash != nullHash)
    require (env.crypto.validateKeyImage kImage)
    require (env.crypto.checkRingSignature hash kImage outputKeys (sig.take outputKeys.length))
    require (!extra || checkExtraSign env tx txPrefixHash sig)

/-- The loop of `check_ms_input`: each signature in turn takes the next key
that verifies it. -/
def matchSignatures (checkSig : PublicKey → Signature → Bool) :
    List Signature → List PublicKey → Bool
  | [], _ => true
  | _ :: _, [] => false
  | s :: rest, key :: keys =>
      if checkSig key s then matchSignatures checkSig rest keys
      else matchSignatures checkSig (s :: rest) keys

/-- `check_ms_input`: does not look at the spent flags. -/
def checkMsInput (db : Db) (inCheckpointZone : Bool) (now : Nat) (tx : Transaction) (inIndex : Nat)
    (txin : TxinMultisig) (txPrefixHash : Hash) (sourceTx : Transaction) (outN : Nat) : Check := do
  let unlockTime ← getTxUnlockTime sourceTx.toTransactionPrefix outN
  require (isTxSpendtimeUnlocked unlockTime db.size now)
  match sourceTx.vout[outN]? with
  | none => .error .rejected
  | some { amount, target := .multisig target } => do
      require (txin.sigsCount = target.minimumSigs)
      require (amount = txin.amount)
      if inCheckpointZone then return ()
      checkInputAttachments env tx inIndex txin.etcDetails
      require (inIndex < tx.signatures.length)
      let inputSignatures := tx.signatures.getD inIndex []
      let extra := needToCheckExtraSign tx inIndex
      require (txin.sigsCount + (if extra then 1 else 0) = inputSignatures.length)
      let hash := preparePrefixHashForSign env.crypto tx inIndex txPrefixHash
      require (hash != nullHash)
      require (txin.sigsCount ≤ target.keys.length)
      require (matchSignatures (env.crypto.checkSignature hash)
        (inputSignatures.take txin.sigsCount) target.keys)
      require (!extra || checkExtraSign env tx txPrefixHash inputSignatures)
  | some _ => .error .thrown

/-! ## The inputs of a transaction -/

section

variable (db : Db) (inCheckpointZone : Bool) (now : Nat)

/-- `check_tx_input` for a key input. -/
def checkTxInputToKey (tx : Transaction) (inIndex : Nat) (txin : TxinToKey) (txPrefixHash : Hash)
    (sig : List Signature) (maxRelatedBlockHeight : Nat) : Except Failure ScanResult := do
  let scan ← scanOutputkeysForIndexes db now tx (.toKey txin) txin maxRelatedBlockHeight
  require (txin.keyOffsets.length = scan.outputKeys.length)
  checkInputSignature env inCheckpointZone tx inIndex txin.kImage txin.etcDetails txPrefixHash sig
    scan.outputKeys
  return scan

/-- The hash of the secret an HTLC input reveals against the one the output
asks for; the source throws when they differ. -/
def htlcHashMatches (out : TxoutHtlc) (hltcOrigin : ByteString) : Bool :=
  if out.flags &&& currencyTxoutHtlcFlagsHashTypeMask = 0 then
    env.crypto.sha256Hash hltcOrigin = out.htlcHash
  else env.crypto.ripemd160Hash hltcOrigin = out.htlcHash.extractLsb' 96 160

/-- `check_tx_input` for an HTLC input. -/
def checkTxInputHtlc (tx : Transaction) (inIndex : Nat) (txin : TxinHtlc) (txPrefixHash : Hash)
    (sig : List Signature) (maxRelatedBlockHeight : Nat) : Except Failure Nat := do
  let scan ←
    scanOutputkeysForIndexes db now tx (.htlc txin) txin.toTxinToKey maxRelatedBlockHeight
  match scan.htlcOuts with
  | [relatedOut] => do
      requireThrow (htlcHashMatches env relatedOut txin.hltcOrigin)
      requireThrow (scan.outputKeys.length = 1)
      checkInputSignature env inCheckpointZone tx inIndex txin.kImage txin.etcDetails txPrefixHash
        sig scan.outputKeys
      return scan.maxRelatedBlockHeight
  | _ => .error .thrown

/-- `check_tx_input` for a multisig input: the output has to be unspent before
the transaction.  The returned height replaces the maximum so far. -/
def checkTxInputMultisig (tx : Transaction) (inIndex : Nat) (txin : TxinMultisig)
    (txPrefixHash : Hash) : Except Failure Nat :=
  match db.multisigOuts.lookup txin.multisigOutId with
  | none => .error .rejected
  | some ms => do
      require (ms.spentHeight = 0)
      match db.transactions.lookup ms.txId with
      | none => .error .rejected
      | some entry => do
          require (match (entry.tx.vout[ms.outNo]?).map TxOut.target with
            | some (.multisig _) => true
            | _ => false)
          require (entry.spentFlags[ms.outNo]? = some false)
          checkMsInput env db inCheckpointZone now tx inIndex txin txPrefixHash entry.tx ms.outNo
          return entry.keeperBlockHeight

def haveTxKeyimgAsSpent (kImage : KeyImage) : Bool :=
  (db.spentKeys.lookup kImage).isSome

/-- One turn of the loop of `check_tx_inputs`; returns `max_used_block_height`. -/
def checkTxInput (tx : Transaction) (txPrefixHash : Hash) (sigIndex : Nat)
    (maxUsedBlockHeight : Nat) (input : Txin) : Except Failure Nat := do
  require (inCheckpointZone || sigIndex < tx.signatures.length)
  let sig := if inCheckpointZone then [] else tx.signatures.getD sigIndex []
  match input with
  | .gen _ => return maxUsedBlockHeight
  | .toKey txin => do
      require (txin.keyOffsets != [])
      require (!haveTxKeyimgAsSpent db txin.kImage)
      let scan ← checkTxInputToKey env db inCheckpointZone now tx sigIndex txin txPrefixHash sig
        maxUsedBlockHeight
      return scan.maxRelatedBlockHeight
  | .multisig txin =>
      checkTxInputMultisig env db inCheckpointZone now tx sigIndex txin txPrefixHash
  | .htlc txin => do
      require (env.isAfterHardfork3Zone db.size)
      require (txin.keyOffsets != [])
      require (!haveTxKeyimgAsSpent db txin.kImage)
      checkTxInputHtlc env db inCheckpointZone now tx sigIndex txin txPrefixHash sig
        maxUsedBlockHeight

def checkTxInputsFrom (tx : Transaction) (txPrefixHash : Hash) :
    Nat → Nat → List Txin → Except Failure Nat
  | _, maxUsedBlockHeight, [] => .ok maxUsedBlockHeight
  | sigIndex, maxUsedBlockHeight, input :: rest => do
      let maxUsed ← checkTxInput env db inCheckpointZone now tx txPrefixHash sigIndex
        maxUsedBlockHeight input
      checkTxInputsFrom tx txPrefixHash (sigIndex + 1) maxUsed rest

/-- `check_tx_inputs`; returns `max_used_block_height`. -/
def checkTxInputs (tx : Transaction) (txPrefixHash : Hash) : Except Failure Nat := do
  let maxUsed ← checkTxInputsFrom env db inCheckpointZone now tx txPrefixHash 0 0 tx.vin
  if inCheckpointZone then return maxUsed
  require (tx.signatures.length = tx.vin.length)
  require (isSignatureModeSeparate tx.toTransactionPrefix ||
    validateAttachmentInfo env.crypto (tx.extra.findSome? PayloadItem.asAttachmentInfo?)
      tx.attachment false)
  return maxUsed

end

/-! ## Accepted inputs -/

section

variable {env : Env} {db : Db} {inCheckpointZone : Bool} {now : Nat}

/-- What one turn of the scan has looked up and checked. -/
theorem scanOutput_eq_ok_iff {tx : Transaction} {input : Txin} {amount : UInt64} {ringSize : Nat}
    {ref : TxoutRef} {acc acc' : ScanResult} :
    scanOutput db now tx input amount ringSize ref acc = .ok acc' ↔
      ∃ txId n entry out key unlockTime maxUnlockTime, resolveOutputRef db amount ref = some (txId, n) ∧
        db.transactions.lookup txId = some entry ∧ entry.tx.vout[n]? = some out ∧
        isOutputAllowedForInput out.target input (db.size - entry.keeperBlockHeight) = true ∧
        outputKeyForInput out.target entry.spentFlags[n]? ringSize
          (db.size - entry.keeperBlockHeight) = .ok key ∧
        getTxUnlockTime entry.tx.toTransactionPrefix n = .ok unlockTime ∧
        handleOutputUnlockTime db now tx unlockTime acc.sourceMaxUnlockTimeForPosCoinbase =
          .ok maxUnlockTime ∧
        acc' = {
          outputKeys := acc.outputKeys ++ [key.1]
          htlcOuts := acc.htlcOuts ++ key.2
          maxRelatedBlockHeight := max acc.maxRelatedBlockHeight entry.keeperBlockHeight
          sourceMaxUnlockTimeForPosCoinbase := maxUnlockTime } := by
  rw [scanOutput]
  cases hresolve : resolveOutputRef db amount ref with
  | none => simp
  | some p =>
      obtain ⟨txId, n⟩ := p
      dsimp only
      cases hentry : db.transactions.lookup txId with
      | none => simp [hentry]
      | some entry =>
          dsimp only
          cases hout : entry.tx.vout[n]? with
          | none => simp [hentry, hout]
          | some out =>
              rw [require_bind_eq_ok]
              simp only [bind_eq_ok, pure, Except.pure, Except.ok.injEq]
              constructor
              · rintro ⟨hallowed, key, hkey, unlockTime, hunlock, maxUnlockTime, hmax, rfl⟩
                exact ⟨txId, n, entry, out, key, unlockTime, maxUnlockTime, rfl, hentry, hout, hallowed,
                  hkey, hunlock, hmax, rfl⟩
              · rintro ⟨txId', n', entry', out', key, unlockTime, maxUnlockTime, heq, hentry', hout',
                  hallowed, hkey, hunlock, hmax, rfl⟩
                cases heq
                rw [hentry] at hentry'
                cases hentry'
                rw [hout] at hout'
                cases hout'
                exact ⟨hallowed, key, hkey, unlockTime, hunlock, maxUnlockTime, hmax, rfl⟩

/-- The scan of an input with one reference. -/
theorem scanOutputkeysForIndexes_single {tx : Transaction} {input : Txin} {part : TxinToKey}
    {ref : TxoutRef} {height : Nat} {scan : ScanResult} (href : part.keyOffsets = [ref]) :
    scanOutputkeysForIndexes db now tx input part height = .ok scan ↔ db.outputs part.amount ≠ [] ∧
      scanOutput db now tx input part.amount 1 ref ⟨[], [], height, 0⟩ = .ok scan := by
  have hone : scanOutputs db now tx input part.amount 1 [ref] ⟨[], [], height, 0⟩ =
      scanOutput db now tx input part.amount 1 ref ⟨[], [], height, 0⟩ := by
    rw [scanOutputs]
    exact bind_pure _
  rw [scanOutputkeysForIndexes, require_bind_eq_ok, href, bne_iff_ne, ← hone]
  rfl

theorem checkTxInputToKey_eq_ok_iff {tx : Transaction} {inIndex : Nat} {txin : TxinToKey}
    {txPrefixHash : Hash} {sig : List Signature} {height : Nat} {scan : ScanResult} :
    checkTxInputToKey env db inCheckpointZone now tx inIndex txin txPrefixHash sig height = .ok scan ↔
      scanOutputkeysForIndexes db now tx (.toKey txin) txin height = .ok scan ∧
        txin.keyOffsets.length = scan.outputKeys.length ∧
        checkInputSignature env inCheckpointZone tx inIndex txin.kImage txin.etcDetails txPrefixHash sig
          scan.outputKeys = .ok () := by
  rw [checkTxInputToKey, bind_eq_ok]
  constructor
  · rintro ⟨scan', hscan, h⟩
    rw [require_bind_eq_ok, bind_eq_ok] at h
    obtain ⟨hlength, _, hsignature, hreturn⟩ := h
    cases hreturn
    exact ⟨hscan, of_decide_eq_true hlength, hsignature⟩
  · rintro ⟨hscan, hlength, hsignature⟩
    refine ⟨scan, hscan, ?_⟩
    rw [require_bind_eq_ok, bind_eq_ok]
    exact ⟨decide_eq_true hlength, (), hsignature, rfl⟩

/-- An HTLC input has to refer to one HTLC output. -/
theorem checkTxInputHtlc_eq_ok_iff {tx : Transaction} {inIndex : Nat} {txin : TxinHtlc}
    {txPrefixHash : Hash} {sig : List Signature} {height height' : Nat} :
    checkTxInputHtlc env db inCheckpointZone now tx inIndex txin txPrefixHash sig height = .ok height' ↔
      ∃ scan relatedOut,
        scanOutputkeysForIndexes db now tx (.htlc txin) txin.toTxinToKey height = .ok scan ∧
        scan.htlcOuts = [relatedOut] ∧ htlcHashMatches env relatedOut txin.hltcOrigin = true ∧
        scan.outputKeys.length = 1 ∧
        checkInputSignature env inCheckpointZone tx inIndex txin.kImage txin.etcDetails txPrefixHash sig
          scan.outputKeys = .ok () ∧
        scan.maxRelatedBlockHeight = height' := by
  rw [checkTxInputHtlc, bind_eq_ok]
  constructor
  · rintro ⟨scan, hscan, h⟩
    split at h
    · rename_i relatedOut hrelated
      rw [requireThrow_bind_eq_ok, requireThrow_bind_eq_ok, bind_eq_ok] at h
      obtain ⟨hhash, hone, _, hsignature, hheight⟩ := h
      exact ⟨scan, relatedOut, hscan, hrelated, hhash, of_decide_eq_true hone, hsignature,
        Except.ok.inj hheight⟩
    · cases h
  · rintro ⟨scan, relatedOut, hscan, hrelated, hhash, hone, hsignature, rfl⟩
    refine ⟨scan, hscan, ?_⟩
    rw [hrelated]
    dsimp only
    rw [requireThrow_bind_eq_ok, requireThrow_bind_eq_ok, bind_eq_ok]
    exact ⟨hhash, decide_eq_true hone, (), hsignature, rfl⟩

/-- The part of the input that `scan_outputkeys_for_indexes` reads. -/
theorem checkTxInput_scan {tx : Transaction} {txPrefixHash : Hash} {i height height' : Nat}
    {input : Txin} {part : TxinToKey} (hpart : input.toKeyPart? = some part)
    (h : checkTxInput env db inCheckpointZone now tx txPrefixHash i height input = .ok height') :
    ∃ scan, scanOutputkeysForIndexes db now tx input part height = .ok scan ∧
      haveTxKeyimgAsSpent db part.kImage = false ∧
      (input.isHtlc = true → env.isAfterHardfork3Zone db.size = true) ∧
      scan.maxRelatedBlockHeight = height' := by
  unfold checkTxInput at h
  rw [require_bind_eq_ok] at h
  replace h := h.2
  cases input with
  | gen _ => cases hpart
  | multisig _ => cases hpart
  | toKey txin =>
      cases hpart
      simp only [require_bind_eq_ok] at h
      obtain ⟨_, hfresh, h⟩ := h
      rw [bind_eq_ok] at h
      obtain ⟨scan, hcheck, hheight⟩ := h
      obtain ⟨hscan, _⟩ := checkTxInputToKey_eq_ok_iff.mp hcheck
      exact ⟨scan, hscan, by simpa using hfresh, fun hhtlc => absurd hhtlc Bool.false_ne_true,
        Except.ok.inj hheight⟩
  | htlc txin =>
      cases hpart
      simp only [require_bind_eq_ok] at h
      obtain ⟨hzone, _, hfresh, hcheck⟩ := h
      obtain ⟨scan, _, hscan, _, _, _, _, hheight⟩ := checkTxInputHtlc_eq_ok_iff.mp hcheck
      exact ⟨scan, hscan, by simpa using hfresh, fun _ => hzone, hheight⟩

/-- A multisig input leads to a multisig output with two marks: both say unspent. -/
theorem checkTxInputMultisig_eq_ok_iff {tx : Transaction} {inIndex : Nat} {txin : TxinMultisig}
    {txPrefixHash : Hash} {height : Nat} :
    checkTxInputMultisig env db inCheckpointZone now tx inIndex txin txPrefixHash = .ok height ↔
      ∃ ms entry target, db.multisigOuts.lookup txin.multisigOutId = some ms ∧ ms.spentHeight = 0 ∧
        db.transactions.lookup ms.txId = some entry ∧
        (entry.tx.vout[ms.outNo]?).map TxOut.target = some (.multisig target) ∧
        entry.spentFlags[ms.outNo]? = some false ∧
        checkMsInput env db inCheckpointZone now tx inIndex txin txPrefixHash entry.tx ms.outNo =
          .ok () ∧
        entry.keeperBlockHeight = height := by
  rw [checkTxInputMultisig]
  cases hms : db.multisigOuts.lookup txin.multisigOutId with
  | none => simp
  | some ms =>
      dsimp only
      rw [require_bind_eq_ok]
      cases hentry : db.transactions.lookup ms.txId with
      | none => simp [hentry]
      | some entry =>
          dsimp only
          rw [require_bind_eq_ok, require_bind_eq_ok, bind_eq_ok]
          constructor
          · rintro ⟨hunspent, htarget, hflag, _, hcheck, hheight⟩
            split at htarget
            · rename_i target hkind
              exact ⟨ms, entry, target, rfl, of_decide_eq_true hunspent, hentry, hkind,
                of_decide_eq_true hflag, hcheck, Except.ok.inj hheight⟩
            · cases htarget
          · rintro ⟨ms', entry', target, hms', hunspent, hentry', hkind, hflag, hcheck, rfl⟩
            cases hms'
            rw [hentry] at hentry'
            cases hentry'
            rw [hkind]
            exact ⟨decide_eq_true hunspent, rfl, decide_eq_true hflag, (), hcheck, rfl⟩

end

end Chinet
