import Chinet.Account.AddressText
import Chinet.Common.AmountText
import Chinet.Difficulty

/-!
# The stratum server

`stratum_protocol_handler_config` with the protocol handlers of its clients.  Every handler that
holds `m_work_change_lock` from its start to its end is one step; a request for work, which does
not, is four steps.  What the core answers during a step is a `CoreView`.
-/

namespace Chinet.Stratum

/-! ## Data -/

/-- `WORKER_ALLOWED_USERNAME` -/
def workerAllowedUsername : ByteString := [109, 105, 110, 101, 114]

def jsonrpcErrorCodeDefault : Int := -32000

structure VdiffParams where
  targetMin : UInt64
  targetMax : UInt64
  targetTimeMs : UInt64
  retargetTimeMs : UInt64
  retargetSharesCount : UInt64
  variancePercent : UInt64
deriving DecidableEq

/-- A (work, nonce) pair that met the difficulty of the worker who sent it. -/
structure MetShare where
  ethash : Hash
  nonce : UInt64
  difficulty : WideDifficulty
deriving DecidableEq

/-- `stratum_connection_context`.  The last two fields are not in the source: the different pairs
that the worker has sent so far and that met its difficulty, and their number when the share
period began. -/
structure ConnectionContext where
  workerName : ByteString
  workerDifficulty : WideDifficulty
  tsStarted : UInt64
  tsSharePeriodTimer : UInt64
  tsDifficultyUpdated : UInt64
  validSharesCount : UInt64
  blocksCount : Nat
  hashesCalculated : WideDifficulty
  vdParams : VdiffParams
  metShares : List MetShare
  periodStart : Nat
deriving DecidableEq

/-- The result of `get_work_json`: `"result":[]`, or a work.  The template that the work is made
of is not in the text. -/
inductive WorkJson where
  | noWork
  | work (ethash seedHash : Hash) (targetBoundary height : Nat) (template : Option Block)
deriving DecidableEq

/-- How far a request for work has come. -/
inductive GetWorkPhase where
  | idle
  | needsJson
  | needsSet (json : WorkJson)
  | needsResponse
deriving DecidableEq

/-- `stratum_protocol_handler` with its connection; the cached work is empty at first. -/
structure ProtocolHandler (κ : Type) where
  connectionId : κ
  context : ConnectionContext
  cachedWorkJson : Option WorkJson
  lastReportedHashrate : UInt64
  phase : GetWorkPhase
deriving DecidableEq

/-- What the clients get, and the blocks that the core gets with the hash of the submitted work. -/
inductive Message (κ : Type) where
  | notification (client : κ) (json : WorkJson)
  | workResponse (client : κ) (json : WorkJson)
  | responseDefault (client : κ)
  | responseError (client : κ) (errorCode : Int) (errorMessage : String)
  | blockFound (block : Block) (blockEthash : Hash)
deriving DecidableEq

/-- `stratum_protocol_handler_config`.  `works` is not in the source: the templates that works were
made of, the last one first. -/
structure Server (κ : Type) where
  protocolHandlers : List (ProtocolHandler κ)
  blockTemplate : Block
  blockTemplateHashBlob : ByteString
  blockTemplateEthash : Hash
  blockchainLastBlockId : Hash
  blockTemplateHeight : Nat
  blockTemplateUpdateTs : UInt64
  prevBlockTemplateEthash : Hash
  vdiffParams : VdiffParams
  networkDifficulty : WideDifficulty
  minerAddr : AccountPublicAddress
  blockTemplateUpdatePeriodMs : UInt64
  namelessWorkerId : Nat
  totalBlocksFound : Nat
  isCoreAlwaysOnline : Bool
  works : List Block
deriving DecidableEq

/-- What the server takes from `crypto/`, the proof of work and the serializer. -/
structure StratumPrimitives extends AddressPrimitives where
  getBlockHashingBlob : Block → ByteString
  /-- `get_block_longhash` of a height, the hash of a work and a nonce. -/
  getBlockLonghash : Nat → Hash → UInt64 → Hash
  ethashCalculateEpochSeed : Nat → Hash
  /-- The public key that `generate_keys` gives with a secret key. -/
  secretKeyToPublicKey : SecretKey → PublicKey
  /-- `derive_public_key_from_target_address` of the secret key of a transaction, with the hint. -/
  derivePublicKeyFromTargetAddress :
    SecretKey → Nat → AccountPublicAddress → Option (PublicKey × UInt16)
  getObjectBlobsize : Transaction → Nat

/-- The state of the chain and of the pool when a block template is asked for: the header of the
new block, the transactions that the pool gives, the amounts that the reward is paid in, unless
the block is too big, and the new secret key of the miner transaction. -/
structure TemplateSource where
  header : Block
  height : Nat
  diffic : WideDifficulty
  fillBlockTemplate : Option (List Hash)
  outAmounts : Option (List UInt64)
  txSec : SecretKey

/-- What the core and the clock answer during a step. -/
structure CoreView where
  now : UInt64
  isSynchronized : Bool
  topBlockId : Hash
  template : TemplateSource

/-- The result of `handle_block_found`, with the core's view after it. -/
structure BlockFoundResult where
  handled : Bool
  verificationFailed : Bool
  addedToAltchain : Bool
  addedToMainChain : Bool
  alreadyExists : Bool
  markedAsOrphaned : Bool
  after : CoreView

/-! ## The block template -/

section

variable (prims : StratumPrimitives)

/-- The key of an output; money to the null keys is burned. -/
def outEphPublicKey (txSec : SecretKey) (no : Nat) (addr : AccountPublicAddress) :
    Option (PublicKey × Option UInt16) :=
  if addr.spendPublicKey = nullPkey ∧ addr.viewPublicKey = nullPkey then some (nullPkey, none)
  else
    (prims.derivePublicKeyFromTargetAddress txSec no addr).map fun derived =>
      (derived.1, some derived.2)

/-- The target that `construct_tx_out` makes for one address without options. -/
def keyTarget (addr : AccountPublicAddress) (key : PublicKey) : TxoutTarget :=
  .toKey ⟨key, if addr.flags &&& accountPublicAddressFlagAuditable ≠ 0 then
    currencyToKeyOutForcedNoMix else 0⟩

/-- `make_tx_derivation_hint_from_uint16`; the item has tag 11 in a payload. -/
def txDerivationHint (hint : UInt16) : PayloadItem :=
  .other 11 [UInt8.ofNat (hint.toNat % 256), UInt8.ofNat (hint.toNat / 256)]

/-- The loop of `construct_miner_tx` over the destinations, with the hints made so far. -/
def constructTxOuts (txSec : SecretKey) (addr : AccountPublicAddress) :
    (no : Nat) → (derivCache : List UInt16) → Transaction → List UInt64 → Bool × Transaction
  | _, _, tx, [] => (true, tx)
  | no, derivCache, tx, amount :: amounts =>
      match outEphPublicKey prims txSec no addr with
      | none => (false, tx)
      | some (key, hint?) =>
          let extra :=
            match hint? with
            | none => tx.extra
            | some hint =>
                if hint ∈ derivCache then tx.extra else tx.extra ++ [txDerivationHint hint]
          constructTxOuts txSec addr (no + 1) (derivCache ++ hint?.toList)
            { tx with extra, vout := tx.vout ++ [⟨amount, keyTarget addr key⟩] } amounts

/-- `construct_miner_tx` of a block that is not a PoS block, without an extra nonce. -/
def constructMinerTx (height : Nat) (minerAddress : AccountPublicAddress)
    (outAmounts : List UInt64) (txKey : PublicKey × SecretKey) (tx : Transaction) :
    Bool × Transaction :=
  if outAmounts.length > currencyTxMaxAllowedOuts ∧ height ≠ 0 then (false, tx)
  else
    let tx := { tx with
      vin := [.gen height], vout := [], extra := [.publicKey txKey.1, .padding []] }
    let (r, tx) := constructTxOuts prims txKey.2 minerAddress 0 [] tx outAmounts
    if !r then (false, tx)
    else
      (true, { tx with
        version := currentTransactionVersion
        extra := tx.extra ++ [.unlockTime (height + currencyMinedMoneyUnlockWindow)] })

/-- A block of `AUTO_VAL_INIT`. -/
def emptyBlock : Block :=
  ⟨0, 0, 0, nullHash, 0, 0, ⟨⟨0, [], [], []⟩, [], []⟩, []⟩

/-- `create_block_template`: what it has made of the block is returned also when it fails. -/
def createBlockTemplate (minerAddress : AccountPublicAddress) (src : TemplateSource) :
    Bool × Block × WideDifficulty × Nat :=
  let b := { emptyBlock with
    majorVersion := src.header.majorVersion
    minorVersion := src.header.minorVersion
    prevId := src.header.prevId
    timestamp := src.header.timestamp }
  if src.diffic = 0 then (false, b, src.diffic, src.height)
  else
    match src.fillBlockTemplate with
    | none => (false, b, src.diffic, src.height)
    | some txHashes =>
        let b := { b with txHashes }
        match src.outAmounts with
        | none => (false, b, src.diffic, src.height)
        | some outAmounts =>
            let (r, minerTx) :=
              constructMinerTx prims src.height minerAddress outAmounts
                (prims.secretKeyToPublicKey src.txSec, src.txSec) b.minerTx
            let b := { b with minerTx }
            (r && decide (prims.getObjectBlobsize minerTx <
              currencyCoinbaseBlobReservedSize - 100), b, src.diffic, src.height)

/-- The hashing blob with a zero nonce; the nonce has a fixed place in it. -/
def zeroNonceHashingBlob (b : Block) : ByteString :=
  prims.getBlockHashingBlob { b with nonce := 0 }

def blobHash (blob : ByteString) : Hash := keyOfBytes (prims.cnFastHash blob).toList

/-- `get_block_header_mining_hash` -/
def getBlockHeaderMiningHash (b : Block) : Hash := blobHash prims (zeroNonceHashingBlob prims b)

end

/-! ## The context of a worker -/

namespace ConnectionContext

/-- The average is zero without shares and before the timer runs. -/
def getAverageSharePeriodMs (c : ConnectionContext) (now : UInt64) : UInt64 :=
  if c.tsSharePeriodTimer = 0 then 0
  else if c.validSharesCount = 0 then 0
  else (now - c.tsSharePeriodTimer) / c.validSharesCount

def resetAverageSharePeriodMs (c : ConnectionContext) (now : UInt64) : ConnectionContext :=
  { c with
    tsSharePeriodTimer := now, validSharesCount := 0, periodStart := c.metShares.length }

def setWorkerDifficulty (c : ConnectionContext) (d : WideDifficulty) (now : UInt64) :
    ConnectionContext :=
  { c with workerDifficulty := d, tsDifficultyUpdated := now }

/-- A new context after `init_and_start_timers`. -/
def initAndStartTimers (vdParams : VdiffParams) (now : UInt64) : ConnectionContext :=
  let c : ConnectionContext := ⟨[63], 1, now, 0, 0, 0, 0, 0, vdParams, [], 0⟩
  (c.setWorkerDifficulty (BitVec.ofNat 128 vdParams.targetMin.toNat) now).resetAverageSharePeriodMs
    now

def wide (n : UInt64) : WideDifficulty := BitVec.ofNat 128 n.toNat

/-- The difficulty that the shares of the period ask for, or zero. -/
def wantedDifficulty (c : ConnectionContext) (now : UInt64) : WideDifficulty :=
  if c.validSharesCount ≠ 0 then
    let average := c.getAverageSharePeriodMs now
    let distance := (average.toNat - c.vdParams.targetTimeMs.toNat : Int).natAbs
    if average ≠ 0 ∧
        distance > (c.vdParams.targetTimeMs * c.vdParams.variancePercent / 100).toNat then
      c.workerDifficulty * wide c.vdParams.targetTimeMs / wide average
    else 0
  else (wide c.vdParams.targetMin + c.workerDifficulty) / 4

def clamp (c : ConnectionContext) (d : WideDifficulty) : WideDifficulty :=
  let d := if d < wide c.vdParams.targetMin then wide c.vdParams.targetMin else d
  if d > wide c.vdParams.targetMax then wide c.vdParams.targetMax else d

def adjustWorkerDifficultyIfNeeded (c : ConnectionContext) (now : UInt64) : ConnectionContext :=
  if c.validSharesCount ≥ c.vdParams.retargetSharesCount ∨
      now - c.tsDifficultyUpdated > c.vdParams.retargetTimeMs then
    let newD := c.wantedDifficulty now
    if newD ≠ 0 then
      let newD := c.clamp newD
      if newD ≠ c.workerDifficulty then
        (c.setWorkerDifficulty newD now).resetAverageSharePeriodMs now
      else c
    else c
  else c

def incrementNormalSharesCount (c : ConnectionContext) : ConnectionContext :=
  { c with
    validSharesCount := c.validSharesCount + 1
    hashesCalculated := c.hashesCalculated + c.workerDifficulty }

def incrementStaleSharesCount (c : ConnectionContext) : ConnectionContext :=
  { c with
    validSharesCount := c.validSharesCount + 1
    hashesCalculated := c.hashesCalculated + c.workerDifficulty }

def incrementBlocksCount (c : ConnectionContext) : ConnectionContext :=
  { c with blocksCount := c.blocksCount + 1 }

/-- Notes a pair that met the difficulty, unless it is noted already. -/
def noteShare (c : ConnectionContext) (met : Bool) (ethash : Hash) (nonce : UInt64) :
    ConnectionContext :=
  if met ∧ ∀ share ∈ c.metShares, ¬ (share.ethash = ethash ∧ share.nonce = nonce) then
    { c with metShares := c.metShares ++ [⟨ethash, nonce, c.workerDifficulty⟩] }
  else c

end ConnectionContext

/-! ## Work -/

namespace Server

variable {κ : Type} (prims : StratumPrimitives)

def isCoreSyncronized (s : Server κ) (v : CoreView) : Bool :=
  s.isCoreAlwaysOnline || v.isSynchronized

section

variable [DecidableEq κ]

def handler? (s : Server κ) (client : κ) : Option (ProtocolHandler κ) :=
  s.protocolHandlers.find? fun ph => ph.connectionId = client

def modifyHandler (s : Server κ) (client : κ) (f : ProtocolHandler κ → ProtocolHandler κ) :
    Server κ :=
  { s with protocolHandlers := s.protocolHandlers.map fun ph =>
      if ph.connectionId = client then f ph else ph }

def modifyContext (s : Server κ) (client : κ) (f : ConnectionContext → ConnectionContext) :
    Server κ :=
  s.modifyHandler client fun ph => { ph with context := f ph.context }

end

/-- `get_work_json` with `difficulty_to_boundary_long`, whose division throws on a difficulty of
zero. -/
def getWorkJson (s : Server κ) (v : CoreView) (workerDifficulty : WideDifficulty) : WorkJson :=
  if !s.isCoreSyncronized v then .noWork
  else
    .work s.blockTemplateEthash (prims.ethashCalculateEpochSeed s.blockTemplateHeight)
      ((2 ^ 256 - 1) / workerDifficulty.toNat) s.blockTemplateHeight s.works.head?

/-- What `set_work_for_all_workers` does with one of them. -/
def renewWork (s : Server κ) (v : CoreView) (ph : ProtocolHandler κ) : ProtocolHandler κ :=
  let context := ph.context.adjustWorkerDifficultyIfNeeded v.now
  { ph with context, cachedWorkJson := some (s.getWorkJson prims v context.workerDifficulty) }

def setWorkForAllWorkers (s : Server κ) (v : CoreView) : Server κ × List (Message κ) :=
  let handlers := s.protocolHandlers.map (s.renewWork prims v)
  ({ s with protocolHandlers := handlers },
    handlers.filterMap fun ph => ph.cachedWorkJson.map (Message.notification ph.connectionId))

/-- `update_block_template` keeps the work: nothing is new, and the period has not passed. -/
def keepsTemplate (s : Server κ) (v : CoreView) : Bool :=
  v.topBlockId == s.blockchainLastBlockId &&
    decide (v.now - s.blockTemplateUpdateTs < s.blockTemplateUpdatePeriodMs)

def updateBlockTemplate (s : Server κ) (v : CoreView) : Bool × Server κ × List (Message κ) :=
  if s.keepsTemplate v then (false, s, [])
  else
    let (r, b, diffic, height) := createBlockTemplate prims s.minerAddr v.template
    let s := { s with blockTemplate := b, blockTemplateHeight := height }
    if !r then (false, s, [])
    else
      let blob := zeroNonceHashingBlob prims b
      let s := { s with
        networkDifficulty := diffic
        blockchainLastBlockId := v.topBlockId
        blockTemplateHashBlob := blob
        prevBlockTemplateEthash := s.blockTemplateEthash
        blockTemplateEthash := blobHash prims blob
        blockTemplateUpdateTs := v.now
        works := b :: s.works }
      let (s, messages) := s.setWorkForAllWorkers prims v
      (true, s, messages)

/-- The first part of `update_work`, up to `updated`. -/
def updateIfSyncronized (s : Server κ) (v : CoreView) : Bool × Server κ × List (Message κ) :=
  if s.isCoreSyncronized v then s.updateBlockTemplate prims v else (false, s, [])

variable [DecidableEq κ]

def setWork (s : Server κ) (client : κ) (json : WorkJson) : Server κ :=
  s.modifyHandler client fun ph => { ph with cachedWorkJson := some json }

def workerDifficultyOf (s : Server κ) (client : κ) : WideDifficulty :=
  ((s.handler? client).map fun ph => ph.context.workerDifficulty).getD 1

/-- `update_work` under `m_work_change_lock`. -/
def updateWork (s : Server κ) (client : κ) (v : CoreView) : Server κ × List (Message κ) :=
  let (updated, s, messages) := s.updateIfSyncronized prims v
  if updated then (s, messages)
  else (s.setWork client (s.getWorkJson prims v (s.workerDifficultyOf client)), messages)

/-! ## Requests -/

/-- The bytes of a request as they stand in an answer. -/
def textOf (bytes : ByteString) : String :=
  String.ofList (bytes.map fun byte => Char.ofNat byte.toNat)

def errorAddressNotSet : String :=
  "trying to log in with 'miner' username, while mining address WAS NOT previously set in " ++
    "daemon. Set mining address in daemon OR use it as a username."

def errorCantParse (userStr : ByteString) : String :=
  "can't parse wallet address from username: " ++ textOf userStr ++ "."

def errorDoesntMatch (userStr : ByteString) : String :=
  "wallet address " ++ textOf userStr ++
    " doesn't match the address previously set in daemon and/or other workers."

def setMinerAddress (s : Server κ) (addr : AccountPublicAddress) : Server κ :=
  { s with minerAddr := addr }

/-- The part of `handle_login` after the username was looked at: the address is set before it is
known whether there was an error. -/
def finishLogin (s : Server κ) (client : κ) (workerStr : ByteString) (startDifficulty : UInt64)
    (errors : List String) (v : CoreView) : Server κ × List (Message κ) :=
  if errors ≠ [] then
    (s, [.responseError client jsonrpcErrorCodeDefault (String.join errors)])
  else
    let s := s.modifyContext client fun c =>
      let c := { c with workerName := workerStr }
      if startDifficulty ≠ 0 then
        c.setWorkerDifficulty (BitVec.ofNat 128 startDifficulty.toNat) v.now
      else c
    let (s, messages) := s.updateWork prims client v
    (s, .responseDefault client :: messages)

/-- The errors for an address that was read from a username. -/
def addressErrors (s : Server κ) (userStr : ByteString) (r : Bool)
    (address : AccountPublicAddress) : List String :=
  (if !r then [errorCantParse userStr] else []) ++
    if s.minerAddr ≠ nullPubAddr ∧ address ≠ s.minerAddr then [errorDoesntMatch userStr] else []

def handleLogin (s : Server κ) (client : κ) (userStr workerStr : ByteString)
    (startDifficulty : UInt64) (v : CoreView) : Server κ × List (Message κ) :=
  if userStr = workerAllowedUsername then
    let errors := if s.minerAddr = nullPubAddr then [errorAddressNotSet] else []
    s.finishLogin prims client workerStr startDifficulty errors v
  else
    match getAccountAddressFromStr prims.toAddressPrimitives userStr with
    | .thrown => (s, [])
    | .refused address =>
        (s.setMinerAddress address).finishLogin prims client workerStr startDifficulty
          (s.addressErrors userStr false address) v
    | .parsed address =>
        (s.setMinerAddress address).finishLogin prims client workerStr startDifficulty
          (s.addressErrors userStr true address) v

/-- `std::stoull`; nothing for an exception. -/
def stoull (str : ByteString) : Option UInt64 :=
  let str := str.dropWhile isSpace
  let unsigned : ByteString := if str.head? = some 45 ∨ str.head? = some 43 then str.drop 1 else str
  let digits : ByteString := unsigned.takeWhile isDigit
  let value : Nat := digits.foldl (fun n digit => 10 * n + (digit.toNat - 48)) 0
  if digits.isEmpty || value ≥ 2 ^ 64 then none
  else if str.head? = some 45 then some (0 - UInt64.ofNat value)
  else some (UInt64.ofNat value)

/-- The username and the start difficulty behind its first `-`; nothing if that cannot be read. -/
def splitUsername (userStr : ByteString) : Option (ByteString × UInt64) :=
  if 45 ∈ userStr then
    (stoull ((userStr.dropWhile (· ≠ 45)).drop 1)).map fun startDifficulty =>
      (userStr.takeWhile (· ≠ 45), startDifficulty)
  else some (userStr, 0)

def handleMethodEthSubmitLogin (s : Server κ) (client : κ) (userStr workerStr : ByteString)
    (v : CoreView) : Server κ × List (Message κ) :=
  let (s, workerStr) :=
    if workerStr = [] then
      ({ s with namelessWorkerId := s.namelessWorkerId + 1 }, toDecimal s.namelessWorkerId)
    else (s, workerStr)
  match splitUsername userStr with
  | none => (s, [])
  | some (userStr, startDifficulty) =>
      s.handleLogin prims client userStr workerStr startDifficulty v

/-- The template that a work with this hash was made of. -/
def workOf (s : Server κ) (ethash : Hash) : Option Block :=
  s.works.find? fun b => getBlockHeaderMiningHash prims b = ethash

/-- The hash of the work with the nonce meets the difficulty of the worker. -/
def meetsDifficulty (s : Server κ) (c : ConnectionContext) (nonce : UInt64) (ethash : Hash) :
    Bool :=
  match s.workOf prims ethash with
  | none => false
  | some b => checkHash (prims.getBlockLonghash (getBlockHeight b) ethash nonce) c.workerDifficulty

def errorWrongWork : String := "wrong work"

def errorNotEnoughWork : String := "not enough work was done"

/-- The part of `handle_work` for a share that also meets the difficulty of the network. -/
def submitBlock (s : Server κ) (client : κ) (nonce : UInt64) (blockEthash : Hash)
    (found : BlockFoundResult) : Server κ × List (Message κ) :=
  let s := { s with blockTemplate := { s.blockTemplate with nonce } }
  let handed := Message.blockFound s.blockTemplate blockEthash
  if found.handled ∧ !found.verificationFailed ∧ !found.addedToAltchain ∧
      found.addedToMainChain ∧ !found.alreadyExists ∧ !found.markedAsOrphaned then
    let (_, s, messages) := s.updateBlockTemplate prims found.after
    let s := s.modifyContext client ConnectionContext.incrementBlocksCount
    ({ s with totalBlocksFound := s.totalBlocksFound + 1 }, handed :: messages)
  else (s, [handed])

def handleWork (s : Server κ) (client : κ) (nonce : UInt64) (blockEthash : Hash) (v : CoreView)
    (found : BlockFoundResult) : Server κ × List (Message κ) :=
  if !s.isCoreSyncronized v then (s, [.responseDefault client])
  else
    let height := getBlockHeight s.blockTemplate
    if blockEthash ≠ s.blockTemplateEthash then
      if blockEthash = s.prevBlockTemplateEthash then
        (s.modifyContext client ConnectionContext.incrementStaleSharesCount,
          [.responseDefault client])
      else (s, [.responseError client jsonrpcErrorCodeDefault errorWrongWork])
    else
      let blockPowHash := prims.getBlockLonghash height s.blockTemplateEthash nonce
      if !checkHash blockPowHash (s.workerDifficultyOf client) then
        (s, [.responseError client jsonrpcErrorCodeDefault errorNotEnoughWork])
      else
        let s := s.modifyContext client ConnectionContext.incrementNormalSharesCount
        if !checkHash blockPowHash s.networkDifficulty then (s, [.responseDefault client])
        else
          let (s, messages) := s.submitBlock prims client nonce blockEthash found
          (s, .responseDefault client :: messages)

/-- `handle_work`, after the share is noted if it met the difficulty of the worker. -/
def handleMethodEthSubmitWork (s : Server κ) (client : κ) (nonce : UInt64) (headerHash : Hash)
    (v : CoreView) (found : BlockFoundResult) : Server κ × List (Message κ) :=
  (s.modifyContext client fun c =>
    c.noteShare (s.meetsDifficulty prims c nonce headerHash) headerHash nonce).handleWork prims
      client nonce headerHash v found

def afterInitConnection (s : Server κ) (client : κ) (now : UInt64) : Server κ :=
  { s with protocolHandlers :=
      ⟨client, .initAndStartTimers s.vdiffParams now, none, 0, .idle⟩ ::
        s.protocolHandlers.filter fun ph => ph.connectionId ≠ client }

def removeProtocolHandler (s : Server κ) (client : κ) : Server κ :=
  { s with protocolHandlers := s.protocolHandlers.filter fun ph => ph.connectionId ≠ client }

def setPhase (s : Server κ) (client : κ) (phase : GetWorkPhase) : Server κ :=
  s.modifyHandler client fun ph => { ph with phase }

end Server

/-! ## Runs -/

/-- What happens to the server.  `eth_getWork` is `getWork` and what follows it for the same
client: `getWorkJson`, `setWork` and `sendWork`, with other clients in between. -/
inductive Event (κ : Type) where
  | afterInitConnection (client : κ) (now : UInt64)
  | removeProtocolHandler (client : κ)
  | blockTemplateUpdateThread (v : CoreView)
  | onBlockchainUpdate (v : CoreView)
  | submitLogin (client : κ) (userStr workerStr : ByteString) (v : CoreView)
  | submitWork (client : κ) (nonce : UInt64) (headerHash : Hash) (v : CoreView)
      (found : BlockFoundResult)
  | submitHashrate (client : κ) (rate : UInt64)
  | getWork (client : κ) (v : CoreView)
  | getWorkJson (client : κ) (v : CoreView)
  | setWork (client : κ)
  | sendWork (client : κ)

namespace Server

variable {κ : Type} [DecidableEq κ] (prims : StratumPrimitives)

/-- A client without a handler is not heard. -/
def step (s : Server κ) : Event κ → Server κ × List (Message κ)
  | .afterInitConnection client now => (s.afterInitConnection client now, [])
  | .removeProtocolHandler client => (s.removeProtocolHandler client, [])
  | .blockTemplateUpdateThread v =>
      if s.isCoreSyncronized v ∧
          v.now - s.blockTemplateUpdateTs ≥ s.blockTemplateUpdatePeriodMs then
        (s.updateBlockTemplate prims v).2
      else (s, [])
  | .onBlockchainUpdate v => (s.updateIfSyncronized prims v).2
  | .submitLogin client userStr workerStr v =>
      match s.handler? client with
      | none => (s, [])
      | some _ => s.handleMethodEthSubmitLogin prims client userStr workerStr v
  | .submitWork client nonce headerHash v found =>
      match s.handler? client with
      | none => (s, [])
      | some _ => s.handleMethodEthSubmitWork prims client nonce headerHash v found
  | .submitHashrate client rate =>
      (s.modifyHandler client fun ph => { ph with lastReportedHashrate := rate }, [])
  | .getWork client v =>
      match s.handler? client with
      | none => (s, [])
      | some _ =>
          let (updated, s, messages) := s.updateIfSyncronized prims v
          (s.setPhase client (if updated then .needsResponse else .needsJson), messages)
  | .getWorkJson client v =>
      match s.handler? client with
      | some ⟨_, context, _, _, .needsJson⟩ =>
          (s.setPhase client (.needsSet (s.getWorkJson prims v context.workerDifficulty)), [])
      | _ => (s, [])
  | .setWork client =>
      match s.handler? client with
      | some ⟨_, _, _, _, .needsSet json⟩ =>
          ((s.setWork client json).setPhase client .needsResponse, [])
      | _ => (s, [])
  | .sendWork client =>
      match s.handler? client with
      | some ⟨_, _, cached, _, .needsResponse⟩ =>
          (s.setPhase client .idle, (cached.map (Message.workResponse client)).toList)
      | _ => (s, [])

def run (s : Server κ) (events : List (Event κ)) : Server κ :=
  events.foldl (fun s e => (s.step prims e).1) s

/-- The server after `init`, with the options given on the command line.  The hash of the previous
work is not initialized. -/
def init (minerAddr : AccountPublicAddress) (vdiffParams : VdiffParams)
    (blockTemplateUpdatePeriodMs : UInt64) (isCoreAlwaysOnline : Bool)
    (prevBlockTemplateEthash : Hash) : Server κ where
  protocolHandlers := []
  blockTemplate := emptyBlock
  blockTemplateHashBlob := []
  blockTemplateEthash := nullHash
  blockchainLastBlockId := nullHash
  blockTemplateHeight := 0
  blockTemplateUpdateTs := 0
  prevBlockTemplateEthash := prevBlockTemplateEthash
  vdiffParams := vdiffParams
  networkDifficulty := 0
  minerAddr := minerAddr
  blockTemplateUpdatePeriodMs := blockTemplateUpdatePeriodMs
  namelessWorkerId := 0
  totalBlocksFound := 0
  isCoreAlwaysOnline := isCoreAlwaysOnline
  works := []

end Server

/-! ## What an update does -/

namespace Server

variable {κ : Type} {prims : StratumPrimitives} {s : Server κ}

theorem updateBlockTemplate_kept_template {v : CoreView} (hkeeps : s.keepsTemplate v = true) :
    s.updateBlockTemplate prims v = (false, s, []) := by
  rw [updateBlockTemplate, if_pos hkeeps]

/-- The state in which the workers get the new work. -/
def withTemplate (prims : StratumPrimitives) (s : Server κ) (v : CoreView) : Server κ :=
  let made := createBlockTemplate prims s.minerAddr v.template
  { s with
    blockTemplate := made.2.1
    blockTemplateHeight := made.2.2.2
    networkDifficulty := made.2.2.1
    blockchainLastBlockId := v.topBlockId
    blockTemplateHashBlob := zeroNonceHashingBlob prims made.2.1
    prevBlockTemplateEthash := s.blockTemplateEthash
    blockTemplateEthash := blobHash prims (zeroNonceHashingBlob prims made.2.1)
    blockTemplateUpdateTs := v.now
    works := made.2.1 :: s.works }

theorem updateBlockTemplate_made {v : CoreView} (hkeeps : s.keepsTemplate v = false)
    (hmade : (createBlockTemplate prims s.minerAddr v.template).1 = true) :
    s.updateBlockTemplate prims v =
      (true, (withTemplate prims s v).setWorkForAllWorkers prims v) := by
  rw [updateBlockTemplate, if_neg (by rw [hkeeps]; decide)]
  simp [hmade, withTemplate]

/-- A failed update leaves a template that was not finished, and nothing else. -/
theorem updateBlockTemplate_failed {v : CoreView} (hkeeps : s.keepsTemplate v = false)
    (hmade : (createBlockTemplate prims s.minerAddr v.template).1 = false) :
    s.updateBlockTemplate prims v =
      (false, { s with
        blockTemplate := (createBlockTemplate prims s.minerAddr v.template).2.1
        blockTemplateHeight := (createBlockTemplate prims s.minerAddr v.template).2.2.2 }, []) := by
  rw [updateBlockTemplate, if_neg (by rw [hkeeps]; decide)]
  simp [hmade]

theorem of_handler?_eq_some [DecidableEq κ] {client : κ} {ph : ProtocolHandler κ}
    (h : s.handler? client = some ph) : ph ∈ s.protocolHandlers ∧ ph.connectionId = client := by
  rw [handler?] at h
  exact ⟨List.mem_of_find?_eq_some h, by simpa using List.find?_some h⟩

end Server

end Chinet.Stratum
