import Mathlib.Data.List.Basic
import Mathlib.Tactic.ByContra
import Mathlib.Tactic.Ring

/-!
# Block synchronization

The handlers of the currency protocol for one connection, with the requests that are posted to
the peer and not yet answered.
-/

namespace Chinet

/-- `CURRENCY_PROTOCOL_MAX_BLOCKS_REQUEST_COUNT` -/
def currencyProtocolMaxBlocksRequestCount : Nat := 500

def currencyProtocolMaxTxsRequestCount : Nat := 500

def blocksSynchronizingDefaultCount : Nat := 200

def blocksSynchronizingDefaultSize : Nat := 2000000

/-- `currency_connection_context::state` -/
inductive ConnectionState where
  | stateBeforHandshake
  | stateSynchronizing
  | stateIdle
  | stateNormal
deriving DecidableEq

/-- `block_context_info` -/
structure BlockContextInfo (θ : Type*) where
  h : θ
  cumulSize : Nat
deriving DecidableEq

/-- `currency_connection_context`, with its `m_priv`; the set of the requested objects is a list
without repetitions. -/
structure ConnectionContext (θ : Type*) where
  state : ConnectionState
  remoteBlockchainHeight : Nat
  lastResponseHeight : Nat
  neededObjects : List (BlockContextInfo θ)
  requestedObjects : List θ
  callbackRequestCount : Nat
deriving DecidableEq

/-- What a handler does with the peer. -/
inductive PeerAction where
  | notifyRequestChain
  | notifyRequestGetObjects
  | notifyResponseChainEntry
  | notifyResponseGetObjects
  | requestCallback
  /-- `drop_connection`, with the state of the connection at that moment. -/
  | dropConnection (state : ConnectionState)
  | addIpFail
deriving DecidableEq

/-- A block of `NOTIFY_RESPONSE_GET_OBJECTS`, with what the node finds out about it: the id and
the number of transaction hashes if it parses, which transactions parse, whether the stop signal
is seen before the block (when it is parsed, when it is processed) or before a transaction, the
block verification context that the core returns, and the alternative blocks that the core prunes
then. -/
structure SyncBlockEntry (θ : Type*) where
  stopParsing : Bool
  block : Option (θ × Nat)
  stopProcessing : Bool
  txs : List (Bool × Bool)
  alreadyExists : Bool
  verificationFailed : Bool
  markedAsOrphaned : Bool
  pruned : List θ
deriving DecidableEq

/-- What becomes of a block of `NOTIFY_NEW_BLOCK`, with what the core prunes when it takes it. -/
inductive NewBlockOutcome (θ : Type*) where
  | notParsed
  | inQueueOrCore
  | wrongTransaction
  | verificationFailed
  | addedOrKept (pruned : List θ)
  | markedAsOrphaned
deriving DecidableEq

/-- `CORE_SYNC_DATA`, with what the node knows: a serious problem of the time that is handled,
whether the top block is in the queue, and the checkpoints. -/
structure SyncData (θ : Type*) where
  currentHeight : UInt64
  topId : θ
  lastCheckpointHeight : Nat
  isInital : Bool
  timeErrorHandled : Bool
  haveInQue : Bool
  topCheckpointHeight : Nat
  currentBlockchainSize : Nat

/-- The connection during a handler, with the blocks that the core has and the actions so far. -/
structure HandlerState (θ : Type*) where
  context : ConnectionContext θ
  core : List θ
  actions : List PeerAction
deriving DecidableEq

namespace HandlerState

variable {θ : Type*}

def act (c : HandlerState θ) (a : PeerAction) : HandlerState θ :=
  { c with actions := c.actions ++ [a] }

def drop (c : HandlerState θ) : HandlerState θ := c.act (.dropConnection c.context.state)

/-- `m_core.have_block` -/
def haveBlock [DecidableEq θ] (c : HandlerState θ) (id : θ) : Bool := decide (id ∈ c.core)

/-- `m_remote_blockchain_height - 1` of unsigned integers. -/
def remoteHeightBelow (context : ConnectionContext θ) : Nat :=
  (context.remoteBlockchainHeight + (2 ^ 64 - 1)) % 2 ^ 64

variable [DecidableEq θ]

/-- The core without the blocks that it prunes: `do_erase_altblock` of `prune_aged_alt_blocks`. -/
def pruneBlocks (core pruned : List θ) : List θ := core.filter fun id => decide (id ∉ pruned)

/-- The loop of `request_missing_objects` over the needed objects: the objects that stay, and the
requested ones. -/
def requestLoop (checkHavingBlocks : Bool) (core : List θ) :
    List (BlockContextInfo θ) → Nat → Nat → List θ → List (BlockContextInfo θ) × List θ
  | [], _, _, requested => ([], requested)
  | it :: rest, count, cumulativeSize, requested =>
      if count < blocksSynchronizingDefaultCount ∧
          cumulativeSize < blocksSynchronizingDefaultSize then
        if checkHavingBlocks ∧ it.h ∈ core then
          requestLoop checkHavingBlocks core rest count cumulativeSize requested
        else requestLoop checkHavingBlocks core rest (count + 1)
          ((cumulativeSize + it.cumulSize) % 2 ^ 64) (requested.insert it.h)
      else (it :: rest, requested)

/-- `request_missing_objects` -/
def requestMissingObjects (c : HandlerState θ) (checkHavingBlocks : Bool) : HandlerState θ :=
  if c.context.neededObjects ≠ [] then
    let left := requestLoop checkHavingBlocks c.core c.context.neededObjects 0 0
      c.context.requestedObjects
    { c with context :=
        { c.context with neededObjects := left.1, requestedObjects := left.2 } }.act
      .notifyRequestGetObjects
  else if c.context.lastResponseHeight < remoteHeightBelow c.context then
    c.act .notifyRequestChain
  else if c.context.lastResponseHeight = remoteHeightBelow c.context ∧
      c.context.requestedObjects = [] then
    { c with context := { c.context with state := .stateNormal } }
  else c

/-- The connection is suspended: another one delivers the blocks. -/
def setIdle (c : HandlerState θ) : HandlerState θ :=
  { c with context :=
      { c.context with state := .stateIdle, neededObjects := [], requestedObjects := [] } }

/-- The first loop of `handle_response_get_objects`, with the count of the blocks before: whether
the handler goes on. -/
def checkBlocks (c : HandlerState θ) : Nat → List (SyncBlockEntry θ) → Bool × HandlerState θ
  | _, [] => (true, c)
  | count, entry :: rest =>
      if entry.stopParsing then (false, c.drop)
      else
        match entry.block with
        | none => (false, c.drop.act .addIpFail)
        | some (id, txHashesSize) =>
            if count + 1 = 2 ∧ c.haveBlock id then (false, c.setIdle)
            else if id ∉ c.context.requestedObjects then (false, c.drop)
            else if txHashesSize ≠ entry.txs.length then (false, c.drop)
            else
              checkBlocks { c with context := { c.context with
                requestedObjects := c.context.requestedObjects.erase id } } (count + 1) rest

/-- The transactions of a block: whether each one parses before the stop signal. -/
def txsParsed (txs : List (Bool × Bool)) : Bool := txs.all fun tx => !tx.1 && tx.2

/-- The second loop of `handle_response_get_objects`. A block that is neither refused nor orphaned
comes into the core, which then prunes its alternative blocks. -/
def processBlocks (c : HandlerState θ) : Nat → List (SyncBlockEntry θ) → Bool × HandlerState θ
  | _, [] => (true, c)
  | count, entry :: rest =>
      if entry.stopProcessing then (false, c.drop)
      else if txsParsed entry.txs = false then (false, c.drop)
      else
        let core := pruneBlocks
          (match entry.block with
            | some (id, _) =>
                if entry.verificationFailed ∨ entry.markedAsOrphaned then c.core else id :: c.core
            | none => c.core) entry.pruned
        if count > 2 ∧ entry.alreadyExists then (false, { c with core := core }.setIdle)
        else if entry.verificationFailed then (false, { c with core := core }.drop.act .addIpFail)
        else if entry.markedAsOrphaned then (false, { c with core := core }.drop.act .addIpFail)
        else processBlocks { c with core := core } (count + 1) rest

/-- `handle_response_get_objects` -/
def handleResponseGetObjects (c : HandlerState θ) (currentBlockchainHeight : Nat)
    (blocks : List (SyncBlockEntry θ)) : HandlerState θ :=
  if c.context.lastResponseHeight > currentBlockchainHeight then c.drop
  else
    let c := { c with context :=
      { c.context with remoteBlockchainHeight := currentBlockchainHeight } }
    match c.checkBlocks 0 blocks with
    | (false, c) => c
    | (true, c) =>
        if c.context.requestedObjects ≠ [] then c.drop
        else
          match c.processBlocks 0 blocks with
          | (false, c) => c
          | (true, c) => c.requestMissingObjects true

/-- `m_last_response_height` of a chain entry, as unsigned integers have it. -/
def chainEntryHeight (startHeight : Nat) (blockIds : List (BlockContextInfo θ)) : Nat :=
  (startHeight + blockIds.length + (2 ^ 64 - 1)) % 2 ^ 64

/-- `handle_response_chain_entry`. The drop for a wrong height does not return. -/
def handleResponseChainEntry (c : HandlerState θ) (startHeight totalHeight : Nat)
    (blockIds : List (BlockContextInfo θ)) : HandlerState θ :=
  match blockIds.head? with
  | none => c.drop.act .addIpFail
  | some front =>
      if c.haveBlock front.h = false then c.drop.act .addIpFail
      else
        let c := { c with context :=
          { c.context with
            remoteBlockchainHeight := totalHeight
            lastResponseHeight := chainEntryHeight startHeight blockIds } }
        let c :=
          if c.context.lastResponseHeight > c.context.remoteBlockchainHeight then
            c.drop.act .addIpFail
          else c
        let c := { c with context :=
          { c.context with neededObjects := c.context.neededObjects ++
              blockIds.filter fun (details : BlockContextInfo θ) => !c.haveBlock details.h } }
        c.requestMissingObjects false

/-- `handle_request_get_objects`. The drops do not return. -/
def handleRequestGetObjects (c : HandlerState θ) (blocksSize txsSize : Nat)
    (handleGetObjects : Bool) : HandlerState θ :=
  let c :=
    if blocksSize > currencyProtocolMaxBlocksRequestCount ∨
      txsSize > currencyProtocolMaxTxsRequestCount then c.drop else c
  let c := if handleGetObjects then c else c.drop
  c.act .notifyResponseGetObjects

/-- `handle_request_chain` -/
def handleRequestChain (c : HandlerState θ) (findBlockchainSupplement : Bool) : HandlerState θ :=
  if findBlockchainSupplement then c.act .notifyResponseChainEntry else c

/-- `handle_notify_new_block` -/
def handleNotifyNewBlock (c : HandlerState θ) (id : θ) (outcome : NewBlockOutcome θ) :
    HandlerState θ :=
  if c.context.state ≠ .stateNormal then c
  else
    match outcome with
    | .notParsed => c.drop
    | .inQueueOrCore => c
    | .wrongTransaction => c.drop
    | .verificationFailed => c.drop
    | .addedOrKept pruned => { c with core := pruneBlocks (id :: c.core) pruned }
    | .markedAsOrphaned =>
        { c with context := { c.context with state := .stateSynchronizing } }.act
          .notifyRequestChain

/-- `handle_notify_new_transactions`, with whether a transaction fails its verification on a
synchronized node. -/
def handleNotifyNewTransactions (c : HandlerState θ) (verificationFailed : Bool) :
    HandlerState θ :=
  if verificationFailed then c.drop else c

/-- `process_payload_sync_data` -/
def processPayloadSyncData (c : HandlerState θ) (hshd : SyncData θ) : HandlerState θ :=
  if c.context.state = .stateBeforHandshake ∧ hshd.isInital = false then c
  else if hshd.timeErrorHandled then c
  else if c.context.state = .stateSynchronizing then c
  else if hshd.haveInQue ∨ c.haveBlock hshd.topId then
    { c with context := { c.context with state := .stateNormal } }
  else if hshd.lastCheckpointHeight ≠ 0 ∧ hshd.topCheckpointHeight < hshd.lastCheckpointHeight ∧
      hshd.currentBlockchainSize < hshd.lastCheckpointHeight then c
  else
    { c with context :=
      { c.context with
        state := .stateSynchronizing
        remoteBlockchainHeight := hshd.currentHeight.toNat
        callbackRequestCount := c.context.callbackRequestCount + 1 } }.act .requestCallback

/-- `on_callback` -/
def onCallback (c : HandlerState θ) : HandlerState θ :=
  if c.context.callbackRequestCount = 0 then c
  else
    let c := { c with context :=
      { c.context with callbackRequestCount := c.context.callbackRequestCount - 1 } }
    if c.context.state = .stateSynchronizing then c.act .notifyRequestChain else c

end HandlerState

/-! ## Runs -/

/-- What may happen on a connection: the messages of the peer, the callback, a block that another
connection brings into the core, and blocks that the core prunes on its own or for others. -/
inductive SyncEvent (θ : Type*) where
  | payloadSyncData (hshd : SyncData θ)
  | callback
  | notifyNewBlock (id : θ) (outcome : NewBlockOutcome θ)
  | notifyNewTransactions (verificationFailed : Bool)
  | requestGetObjects (blocksSize txsSize : Nat) (handleGetObjects : Bool)
  | requestChain (findBlockchainSupplement : Bool)
  | responseGetObjects (currentBlockchainHeight : UInt64) (blocks : List (SyncBlockEntry θ))
  | responseChainEntry (startHeight totalHeight : UInt64) (blockIds : List (BlockContextInfo θ))
  | coreGains (id : θ)
  | coreLoses (ids : List θ)

/-- A connection with the core, the requests that the peer has not answered and the ids of its
last chain entry; `debugged` is whether the peer's address is `m_debug_ip_address`. -/
structure SyncConnection (θ : Type*) where
  context : ConnectionContext θ
  core : List θ
  dropped : Bool
  chainRequests : Nat
  objectsRequests : Nat
  announced : List θ
  debugged : Bool
  lastActions : List PeerAction
deriving DecidableEq

namespace SyncConnection

open HandlerState

variable {θ : Type*}

/-- A new connection. -/
def connect (core : List θ) (debugged : Bool) : SyncConnection θ :=
  ⟨⟨.stateBeforHandshake, 0, 0, [], [], 0⟩, core, false, 0, 0, [], debugged, []⟩

/-- The handler of an event. -/
def handler [DecidableEq θ] (s : SyncConnection θ) :
    SyncEvent θ → HandlerState θ → HandlerState θ
  | .payloadSyncData hshd, c => c.processPayloadSyncData hshd
  | .callback, c => c.onCallback
  | .coreGains id, c => { c with core := id :: c.core }
  | .coreLoses ids, c => { c with core := pruneBlocks c.core ids }
  | .notifyNewBlock id outcome, c =>
      if s.debugged then c else c.handleNotifyNewBlock id outcome
  | .notifyNewTransactions verificationFailed, c =>
      if s.debugged then c else c.handleNotifyNewTransactions verificationFailed
  | .requestGetObjects blocksSize txsSize handleGetObjects, c =>
      if s.debugged then c else c.handleRequestGetObjects blocksSize txsSize handleGetObjects
  | .requestChain findBlockchainSupplement, c =>
      if s.debugged then c else c.handleRequestChain findBlockchainSupplement
  | .responseGetObjects currentBlockchainHeight blocks, c =>
      if s.debugged then c
      else c.handleResponseGetObjects currentBlockchainHeight.toNat blocks
  | .responseChainEntry startHeight totalHeight blockIds, c =>
      if s.debugged then c
      else c.handleResponseChainEntry startHeight.toNat totalHeight.toNat blockIds

/-- The requests that an event answers are no longer outstanding, and the last chain entry is
remembered. -/
def answered (s : SyncConnection θ) : SyncEvent θ → SyncConnection θ
  | .responseGetObjects _ _ => { s with objectsRequests := s.objectsRequests - 1 }
  | .responseChainEntry _ _ blockIds =>
      { s with
        chainRequests := s.chainRequests - 1
        announced := blockIds.map BlockContextInfo.h }
  | _ => s

def isDrop : PeerAction → Bool
  | .dropConnection _ => true
  | _ => false

/-- The connection after a handler. -/
def after (s : SyncConnection θ) (c : HandlerState θ) : SyncConnection θ :=
  { s with
    context := c.context
    core := c.core
    dropped := c.actions.any isDrop
    chainRequests := s.chainRequests + c.actions.count .notifyRequestChain
    objectsRequests := s.objectsRequests + c.actions.count .notifyRequestGetObjects
    lastActions := c.actions }

/-- One event; nothing happens on a connection that is dropped. -/
def step [DecidableEq θ] (s : SyncConnection θ) (e : SyncEvent θ) : SyncConnection θ :=
  if s.dropped then s else (s.answered e).after (s.handler e ⟨s.context, s.core, []⟩)

def run [DecidableEq θ] (s : SyncConnection θ) (events : List (SyncEvent θ)) : SyncConnection θ :=
  events.foldl step s

/-- The requests to the peer that wait for an answer, and the callbacks that are pending. -/
def outstanding (s : SyncConnection θ) : Nat :=
  s.chainRequests + s.objectsRequests + s.context.callbackRequestCount

/-- The ids of the last chain entry are in the core, needed or requested. -/
def Covered (s : SyncConnection θ) : Prop :=
  ∀ id ∈ s.announced, id ∈ s.core ∨ id ∈ s.context.neededObjects.map BlockContextInfo.h ∨
    id ∈ s.context.requestedObjects

/-- After a drop a handler sends nothing to the peer and leaves the state as it was. -/
def DropIsLast (actions : List PeerAction) (state : ConnectionState) : Prop :=
  ∀ before after st, actions = before ++ .dropConnection st :: after →
    (∀ a ∈ after, a = .addIpFail) ∧ state = st

/-- What the synchronization promises in a state. -/
structure Sound (s : SyncConnection θ) : Prop where
  dropIsLast : DropIsLast s.lastActions s.context.state
  outstanding : s.dropped = false → s.context.state = .stateSynchronizing → s.outstanding = 1
  covered : s.dropped = false → s.context.state = .stateSynchronizing → s.Covered

/-- The response does not suspend the connection: its second block is not in the core yet, and
none from the fourth on exists already when it is processed. -/
def NotSuspended (s : SyncConnection θ) (blocks : List (SyncBlockEntry θ)) : Prop :=
  (∀ entry id size, blocks[1]? = some entry → entry.block = some (id, size) → id ∉ s.core) ∧
    ∀ entry ∈ blocks.drop 3, entry.alreadyExists = false

/-- An id that the core prunes while it takes the blocks is delivered again by a later one. -/
def ComesBack (blocks : List (SyncBlockEntry θ)) (id : θ) : Prop :=
  ∀ before entry after, blocks = before ++ entry :: after → id ∈ entry.pruned →
    ∃ later ∈ after, ∃ size, later.block = some (id, size)

/-- The announced ids among those that the core loses are needed or requested. -/
def StillAsked (s : SyncConnection θ) (lost : List θ) : Prop :=
  ∀ id ∈ s.announced, id ∈ lost →
    id ∈ s.context.neededObjects.map BlockContextInfo.h ∨ id ∈ s.context.requestedObjects

/-- An event with which nothing goes wrong: a response is one that was asked for, of a peer that is
not debugged; it neither suspends the connection nor ends with the last height equal to the
remote one while nothing is needed; a request for objects is one that can be served; and an
announced id that the core loses is still needed or requested, or comes back. -/
def Regular (s : SyncConnection θ) : SyncEvent θ → Prop
  | .requestGetObjects blocksSize txsSize handleGetObjects =>
      blocksSize ≤ currencyProtocolMaxBlocksRequestCount ∧
        txsSize ≤ currencyProtocolMaxTxsRequestCount ∧ handleGetObjects = true
  | .responseGetObjects currentBlockchainHeight blocks =>
      s.debugged = false ∧ 0 < s.objectsRequests ∧ s.NotSuspended blocks ∧
        (s.context.neededObjects = [] → currentBlockchainHeight = 0 ∨
          s.context.lastResponseHeight ≠ currentBlockchainHeight.toNat) ∧
        ∀ id ∈ s.announced,
          id ∈ s.context.neededObjects.map BlockContextInfo.h ∨ ComesBack blocks id
  | .responseChainEntry startHeight totalHeight blockIds =>
      s.debugged = false ∧ 0 < s.chainRequests ∧
        chainEntryHeight startHeight.toNat blockIds ≤ totalHeight.toNat ∧
          (totalHeight = 0 ∨ chainEntryHeight startHeight.toNat blockIds ≠ totalHeight.toNat ∨
            ∃ details ∈ blockIds, details.h ∉ s.core)
  | .notifyNewBlock _ (.addedOrKept pruned) =>
      s.debugged = false → s.context.state = .stateNormal → s.StillAsked pruned
  | .coreLoses ids => s.StillAsked ids
  | _ => True

/-- A run of regular events. -/
def RegularRun [DecidableEq θ] : SyncConnection θ → List (SyncEvent θ) → Prop
  | _, [] => True
  | s, e :: events => s.Regular e ∧ RegularRun (s.step e) events

end SyncConnection

/-! ## What the handlers do -/

namespace HandlerState

variable {θ : Type*}

/-- The handler ended with a drop. -/
def Dropped (c : HandlerState θ) : Prop :=
  c.actions = [.dropConnection c.context.state] ∨
    c.actions = [.dropConnection c.context.state, .addIpFail]

theorem dropped_drop {c : HandlerState θ} (h : c.actions = []) : c.drop.Dropped :=
  Or.inl (by simp [drop, act, h])

theorem dropped_drop_addIpFail {c : HandlerState θ} (h : c.actions = []) :
    (c.drop.act .addIpFail).Dropped :=
  Or.inr (by simp [drop, act, h])

variable [DecidableEq θ]

/-- The objects that leave the needed ones are requested, or in the core. -/
theorem requestLoop_spec (check : Bool) (core : List θ) (needed : List (BlockContextInfo θ)) :
    ∀ (count size : Nat) (requested : List θ),
      (∀ it ∈ needed, it.h ∈ core ∨
        it.h ∈ (requestLoop check core needed count size requested).1.map BlockContextInfo.h ∨
          it.h ∈ (requestLoop check core needed count size requested).2) ∧
        ∀ id ∈ requested, id ∈ (requestLoop check core needed count size requested).2 := by
  induction needed with
  | nil => exact fun _ _ _ => ⟨by simp, fun _ h => h⟩
  | cons first rest ih =>
      intro count size requested
      rw [requestLoop]
      by_cases hroom : count < blocksSynchronizingDefaultCount ∧
          size < blocksSynchronizingDefaultSize
      · rw [if_pos hroom]
        by_cases hhave : check = true ∧ first.h ∈ core
        · rw [if_pos hhave]
          obtain ⟨hrest, hkeep⟩ := ih count size requested
          refine ⟨fun it hit => ?_, hkeep⟩
          rcases List.mem_cons.mp hit with rfl | hit
          · exact Or.inl hhave.2
          · exact hrest it hit
        · rw [if_neg hhave]
          obtain ⟨hrest, hkeep⟩ :=
            ih (count + 1) ((size + first.cumulSize) % 2 ^ 64) (requested.insert first.h)
          refine ⟨fun it hit => ?_, fun id hid => hkeep id (List.mem_insert_of_mem hid)⟩
          rcases List.mem_cons.mp hit with rfl | hit
          · exact Or.inr (Or.inr (hkeep _ List.mem_insert_self))
          · exact hrest it hit
      · rw [if_neg hroom]
        refine ⟨fun it hit => Or.inr (Or.inl (List.mem_map_of_mem hit)), fun _ h => h⟩

/-- Without requested objects, and with the last height below the remote one where nothing is
needed, the missing objects are requested, or the connection is synchronized. -/
theorem requestMissingObjects_spec {c : HandlerState θ} (check : Bool) (hactions : c.actions = [])
    (hrequested : c.context.requestedObjects = [])
    (hheight : c.context.neededObjects = [] →
      c.context.lastResponseHeight ≤ remoteHeightBelow c.context) :
    (c.requestMissingObjects check).core = c.core ∧
      ((c.requestMissingObjects check).actions = [.notifyRequestGetObjects] ∧
          (c.requestMissingObjects check).context.state = c.context.state ∧
          (c.requestMissingObjects check).context.callbackRequestCount =
            c.context.callbackRequestCount ∧
          (∀ it ∈ c.context.neededObjects, it.h ∈ c.core ∨
            it.h ∈ (c.requestMissingObjects check).context.neededObjects.map BlockContextInfo.h ∨
              it.h ∈ (c.requestMissingObjects check).context.requestedObjects) ∨
        c.context.neededObjects = [] ∧
          ((c.requestMissingObjects check).actions = [.notifyRequestChain] ∧
              (c.requestMissingObjects check).context = c.context ∨
            (c.requestMissingObjects check).actions = [] ∧
              (c.requestMissingObjects check).context =
                { c.context with state := .stateNormal })) := by
  rw [requestMissingObjects]
  by_cases hneeded : c.context.neededObjects = []
  · rw [if_neg (not_not.mpr hneeded)]
    by_cases hlow : c.context.lastResponseHeight < remoteHeightBelow c.context
    · rw [if_pos hlow]
      exact ⟨rfl, Or.inr ⟨hneeded, Or.inl ⟨by simp [act, hactions], rfl⟩⟩⟩
    · rw [if_neg hlow, if_pos ⟨by have := hheight hneeded; omega, hrequested⟩]
      exact ⟨rfl, Or.inr ⟨hneeded, Or.inr ⟨hactions, rfl⟩⟩⟩
  · rw [if_pos hneeded]
    refine ⟨rfl, Or.inl ⟨by simp [act, hactions], rfl, rfl, ?_⟩⟩
    exact (requestLoop_spec check c.core c.context.neededObjects 0 0
      c.context.requestedObjects).1

/-- The first loop drops the connection, or finds every block requested. -/
theorem checkBlocks_spec (blocks : List (SyncBlockEntry θ)) :
    ∀ {c : HandlerState θ} {count : Nat}, c.actions = [] →
      (∀ entry id size, count ≤ 1 → blocks[1 - count]? = some entry →
        entry.block = some (id, size) → id ∉ c.core) →
      ((c.checkBlocks count blocks).1 = false → (c.checkBlocks count blocks).2.Dropped) ∧
        ((c.checkBlocks count blocks).1 = true →
          (c.checkBlocks count blocks).2.actions = [] ∧
            (c.checkBlocks count blocks).2.core = c.core ∧
            (c.checkBlocks count blocks).2.context = { c.context with
              requestedObjects := (c.checkBlocks count blocks).2.context.requestedObjects } ∧
            ∀ id ∈ c.context.requestedObjects,
              id ∈ (c.checkBlocks count blocks).2.context.requestedObjects ∨
                ∃ entry ∈ blocks, ∃ size, entry.block = some (id, size)) := by
  induction blocks with
  | nil =>
      intro c count hactions _
      exact ⟨fun h => absurd h Bool.noConfusion, fun _ => ⟨hactions, rfl, rfl, fun _ h => Or.inl h⟩⟩
  | cons entry rest ih =>
      intro c count hactions hsecond
      rw [checkBlocks]
      by_cases hstop : entry.stopParsing
      · rw [if_pos hstop]
        exact ⟨fun _ => dropped_drop hactions, fun h => by cases h⟩
      rw [if_neg hstop]
      cases hblock : entry.block with
      | none => exact ⟨fun _ => dropped_drop_addIpFail hactions, fun h => by cases h⟩
      | some parsed =>
          obtain ⟨id, size⟩ := parsed
          simp only
          have hidle : ¬ (count + 1 = 2 ∧ c.haveBlock id = true) := by
            rintro ⟨hcount, hhave⟩
            obtain rfl : count = 1 := by omega
            exact hsecond entry id size (Nat.le_refl 1) rfl hblock (of_decide_eq_true hhave)
          rw [if_neg hidle]
          by_cases hrequested : id ∉ c.context.requestedObjects
          · rw [if_pos hrequested]
            exact ⟨fun _ => dropped_drop hactions, fun h => by cases h⟩
          rw [if_neg hrequested]
          by_cases hsize : size ≠ entry.txs.length
          · rw [if_pos hsize]
            exact ⟨fun _ => dropped_drop hactions, fun h => by cases h⟩
          rw [if_neg hsize]
          obtain ⟨hfail, hgo⟩ := @ih { c with context := { c.context with
            requestedObjects := c.context.requestedObjects.erase id } } (count + 1) hactions
            (fun other id' size' hcount hother => hsecond other id' size' (by omega) (by
              obtain rfl : count = 0 := by omega
              exact hother))
          refine ⟨hfail, fun h => ?_⟩
          obtain ⟨hactions', hcore, hcontext, hfound⟩ := hgo h
          refine ⟨hactions', hcore, hcontext, fun other hother => ?_⟩
          by_cases hne : other = id
          · exact Or.inr ⟨entry, List.mem_cons_self, size, hne ▸ hblock⟩
          · rcases hfound other ((List.mem_erase_of_ne hne).mpr hother) with h | ⟨e, he, hsome⟩
            · exact Or.inl h
            · exact Or.inr ⟨e, List.mem_cons_of_mem _ he, hsome⟩

theorem mem_pruneBlocks {core pruned : List θ} {id : θ} :
    id ∈ pruneBlocks core pruned ↔ id ∈ core ∧ id ∉ pruned := by
  rw [pruneBlocks, List.mem_filter, decide_eq_true_eq]

omit [DecidableEq θ] in
/-- What is pruned with a later block comes back with one after it. -/
theorem comesBack_tail {entry : SyncBlockEntry θ} {rest : List (SyncBlockEntry θ)} {id : θ}
    (h : SyncConnection.ComesBack (entry :: rest) id) : SyncConnection.ComesBack rest id :=
  fun before other after hrest => h (entry :: before) other after (by rw [hrest, List.cons_append])

/-- The second loop drops the connection, or ends with every block in the core that was there or
is delivered, unless it is pruned and does not come back. -/
theorem processBlocks_spec (blocks : List (SyncBlockEntry θ)) :
    ∀ {c : HandlerState θ} {count : Nat}, c.actions = [] →
      (∀ entry ∈ blocks.drop (3 - count), entry.alreadyExists = false) →
      ((c.processBlocks count blocks).1 = false → (c.processBlocks count blocks).2.Dropped) ∧
        ((c.processBlocks count blocks).1 = true →
          (c.processBlocks count blocks).2.actions = [] ∧
            (c.processBlocks count blocks).2.context = c.context ∧
            ∀ id, SyncConnection.ComesBack blocks id →
              (id ∈ c.core ∨ ∃ entry ∈ blocks, ∃ size, entry.block = some (id, size)) →
                id ∈ (c.processBlocks count blocks).2.core) := by
  induction blocks with
  | nil =>
      intro c count hactions _
      refine ⟨fun h => absurd h Bool.noConfusion, fun _ => ⟨hactions, rfl, ?_⟩⟩
      rintro id - (hid | ⟨entry, hentry, -⟩)
      · exact hid
      · cases hentry
  | cons entry rest ih =>
      intro c count hactions hnew
      rw [processBlocks]
      by_cases hstop : entry.stopProcessing
      · rw [if_pos hstop]
        exact ⟨fun _ => dropped_drop hactions, fun h => by cases h⟩
      rw [if_neg hstop]
      by_cases htxs : txsParsed entry.txs = false
      · rw [if_pos htxs]
        exact ⟨fun _ => dropped_drop hactions, fun h => by cases h⟩
      rw [if_neg htxs]
      dsimp only
      -- a block that exists already would be one of the first three
      have hidle : ¬ (count > 2 ∧ entry.alreadyExists = true) := by
        rintro ⟨hcount, halready⟩
        have hzero : 3 - count = 0 := by omega
        rw [hzero, List.drop_zero] at hnew
        rw [hnew entry List.mem_cons_self] at halready
        cases halready
      rw [if_neg hidle]
      by_cases hfailed : entry.verificationFailed
      · rw [if_pos hfailed]
        exact ⟨fun _ => dropped_drop_addIpFail hactions, fun h => by cases h⟩
      rw [if_neg hfailed]
      by_cases horphaned : entry.markedAsOrphaned
      · rw [if_pos horphaned]
        exact ⟨fun _ => dropped_drop_addIpFail hactions, fun h => by cases h⟩
      rw [if_neg horphaned]
      have hrest : ∀ other ∈ rest.drop (3 - (count + 1)), other.alreadyExists = false := by
        intro other hother
        refine hnew other ?_
        rcases Nat.lt_or_ge count 3 with hlt | hge
        · rw [show 3 - count = 3 - (count + 1) + 1 by omega, List.drop_succ_cons]
          exact hother
        · rw [show 3 - count = 0 by omega, List.drop_zero]
          exact List.mem_cons_of_mem _ (List.mem_of_mem_drop hother)
      obtain ⟨hfail, hgo⟩ := @ih { c with core := (pruneBlocks
        (match entry.block with
          | some (id, _) =>
              if entry.verificationFailed ∨ entry.markedAsOrphaned then c.core else id :: c.core
          | none => c.core) entry.pruned) } (count + 1) hactions hrest
      refine ⟨hfail, fun h => ?_⟩
      obtain ⟨hactions', hcontext, hall⟩ := hgo h
      -- from here on the block went into the core
      have hgood : ¬ (entry.verificationFailed = true ∨ entry.markedAsOrphaned = true) := by
        rintro (h' | h')
        · exact hfailed h'
        · exact horphaned h'
      refine ⟨hactions', hcontext, fun id hback hid => hall id (comesBack_tail hback) ?_⟩
      by_cases hpruned : id ∈ entry.pruned
      · exact Or.inr (hback [] entry rest rfl hpruned)
      · rcases hid with hid | ⟨other, hother, size, hsome⟩
        · refine Or.inl (mem_pruneBlocks.mpr ⟨?_, hpruned⟩)
          cases hblock : entry.block with
          | none => exact hid
          | some parsed =>
              simp only [if_neg hgood]
              exact List.mem_cons_of_mem _ hid
        · rcases List.mem_cons.mp hother with rfl | hother
          · refine Or.inl (mem_pruneBlocks.mpr ⟨?_, hpruned⟩)
            simp only [hsome, if_neg hgood]
            exact List.mem_cons_self
          · exact Or.inr ⟨other, hother, size, hsome⟩

/-- The handler asks the peer for more, or the connection is synchronized. -/
structure Advances (c c' : HandlerState θ) : Prop where
  callbacks : c'.context.callbackRequestCount = c.context.callbackRequestCount
  asks : c'.actions = [.notifyRequestGetObjects] ∧ c'.context.state = c.context.state ∨
    c'.context.neededObjects = [] ∧ c'.context.requestedObjects = [] ∧
      (c'.actions = [.notifyRequestChain] ∧ c'.context.state = c.context.state ∨
        c'.actions = [] ∧ c'.context.state = .stateNormal)

/-- An id is in the core, needed or requested. -/
def Knows (c : HandlerState θ) (id : θ) : Prop :=
  id ∈ c.core ∨ id ∈ c.context.neededObjects.map BlockContextInfo.h ∨
    id ∈ c.context.requestedObjects

theorem requestMissingObjects_advances {c : HandlerState θ} (check : Bool)
    (hactions : c.actions = []) (hrequested : c.context.requestedObjects = [])
    (hheight : c.context.neededObjects = [] →
      c.context.lastResponseHeight ≤ remoteHeightBelow c.context) :
    Advances c (c.requestMissingObjects check) ∧
      ∀ id, c.Knows id → (c.requestMissingObjects check).Knows id := by
  obtain ⟨hcore, hcases⟩ := requestMissingObjects_spec check hactions hrequested hheight
  have hkeep : ∀ id ∈ c.core, id ∈ (c.requestMissingObjects check).core := fun id hid => by
    rw [hcore]
    exact hid
  rcases hcases with ⟨hact, hstate, hcallbacks, hneeded⟩ |
    ⟨hempty, ⟨hact, hcontext⟩ | ⟨hact, hcontext⟩⟩
  · refine ⟨⟨hcallbacks, Or.inl ⟨hact, hstate⟩⟩, ?_⟩
    rintro id (hid | hid | hid)
    · exact Or.inl (hkeep id hid)
    · obtain ⟨it, hit, rfl⟩ := List.mem_map.mp hid
      rcases hneeded it hit with h | h
      · exact Or.inl (hkeep _ h)
      · exact Or.inr h
    · rw [hrequested] at hid
      cases hid
  · refine ⟨⟨by rw [hcontext], Or.inr ⟨by rw [hcontext, hempty], by rw [hcontext, hrequested],
      Or.inl ⟨hact, by rw [hcontext]⟩⟩⟩, ?_⟩
    rintro id (hid | hid)
    · exact Or.inl (hkeep id hid)
    · rw [← hcontext] at hid
      exact Or.inr hid
  · refine ⟨⟨by rw [hcontext], Or.inr ⟨by rw [hcontext, ← hempty], by
      rw [hcontext, ← hrequested], Or.inr ⟨hact, by rw [hcontext]⟩⟩⟩, ?_⟩
    rintro id (hid | hid)
    · exact Or.inl (hkeep id hid)
    · rw [hempty, hrequested] at hid
      rcases hid with h | h <;> cases h

omit [DecidableEq θ] in
theorem le_remoteHeightBelow {context : ConnectionContext θ}
    (hle : context.lastResponseHeight ≤ context.remoteBlockchainHeight)
    (hlt : context.remoteBlockchainHeight < 2 ^ 64)
    (hne : context.remoteBlockchainHeight = 0 ∨
      context.lastResponseHeight ≠ context.remoteBlockchainHeight) :
    context.lastResponseHeight ≤ remoteHeightBelow context := by
  unfold remoteHeightBelow
  omega

/-- The response with the objects that were asked for. -/
theorem handleResponseGetObjects_spec {c : HandlerState θ} {height : UInt64}
    {blocks : List (SyncBlockEntry θ)} (hactions : c.actions = [])
    (hsecond : ∀ entry id size, blocks[1]? = some entry → entry.block = some (id, size) →
      id ∉ c.core)
    (hnew : ∀ entry ∈ blocks.drop 3, entry.alreadyExists = false)
    (hheight : c.context.neededObjects = [] → height = 0 ∨
      c.context.lastResponseHeight ≠ height.toNat) :
    (c.handleResponseGetObjects height.toNat blocks).Dropped ∨
      Advances c (c.handleResponseGetObjects height.toNat blocks) ∧
        ∀ id, (id ∈ c.context.neededObjects.map BlockContextInfo.h ∨
            SyncConnection.ComesBack blocks id) →
          c.Knows id → (c.handleResponseGetObjects height.toNat blocks).Knows id := by
  rw [handleResponseGetObjects]
  by_cases hlow : c.context.lastResponseHeight > height.toNat
  · rw [if_pos hlow]
    exact Or.inl (dropped_drop hactions)
  rw [if_neg hlow]
  dsimp only
  generalize hc0 : ({ c with context :=
    { c.context with remoteBlockchainHeight := height.toNat } } : HandlerState θ) = c0
  have hcheck := @checkBlocks_spec θ _ blocks c0 0 (by rw [← hc0]; exact hactions)
    (fun entry id size _ he hb => by rw [← hc0]; exact hsecond entry id size he hb)
  rcases hres : c0.checkBlocks 0 blocks with ⟨go, c1⟩
  rw [hres] at hcheck
  cases go with
  | false => exact Or.inl (hcheck.1 rfl)
  | true =>
      obtain ⟨hactions1, hcore1, hcontext1, hfound⟩ := hcheck.2 rfl
      simp only at hactions1 hcore1 hcontext1 hfound ⊢
      by_cases hleft : c1.context.requestedObjects ≠ []
      · rw [if_pos hleft]
        exact Or.inl (dropped_drop hactions1)
      rw [if_neg hleft]
      have hnone : c1.context.requestedObjects = [] := not_not.mp hleft
      have hprocess := @processBlocks_spec θ _ blocks c1 0 hactions1 hnew
      rcases hres' : c1.processBlocks 0 blocks with ⟨go', c2⟩
      rw [hres'] at hprocess
      cases go' with
      | false => exact Or.inl (hprocess.1 rfl)
      | true =>
          obtain ⟨hactions2, hcontext2, hall⟩ := hprocess.2 rfl
          simp only at hactions2 hcontext2 hall ⊢
          have hcontext : c2.context = { c.context with
              remoteBlockchainHeight := height.toNat, requestedObjects := [] } := by
            rw [hcontext2, hcontext1, hnone, ← hc0]
          obtain ⟨hadvances, hknows⟩ := @requestMissingObjects_advances θ _ c2 true hactions2
            (by rw [hcontext]) (fun hneeded => by
              rw [hcontext] at hneeded ⊢
              refine le_remoteHeightBelow (Nat.not_lt.mp hlow) height.toNat_lt ?_
              rcases hheight hneeded with rfl | hne
              · exact Or.inl rfl
              · exact Or.inr hne)
          refine Or.inr ⟨⟨?_, ?_⟩, fun id hback hid => hknows id ?_⟩
          · rw [hadvances.callbacks, hcontext]
          · have hasks := hadvances.asks
            rw [hcontext] at hasks
            exact hasks
          · have hneeds : id ∈ c.context.neededObjects.map BlockContextInfo.h → c2.Knows id := by
              intro h
              refine Or.inr (Or.inl ?_)
              rw [hcontext]
              exact h
            rcases hback with hback | hback
            · exact hneeds hback
            · rcases hid with h | h | h
              · refine Or.inl (hall id hback (Or.inl ?_))
                rw [hcore1, ← hc0]
                exact h
              · exact hneeds h
              · -- a requested block is delivered
                rcases hfound id (by rw [← hc0]; exact h) with h' | hdelivered
                · rw [hnone] at h'
                  cases h'
                · exact Or.inl (hall id hback (Or.inr hdelivered))

/-- The chain entry that was asked for, when nothing else is. -/
theorem handleResponseChainEntry_spec {c : HandlerState θ} {start total : UInt64}
    {blockIds : List (BlockContextInfo θ)} (hactions : c.actions = [])
    (hneeded : c.context.neededObjects = []) (hrequested : c.context.requestedObjects = [])
    (hle : chainEntryHeight start.toNat blockIds ≤ total.toNat)
    (hne : total = 0 ∨ chainEntryHeight start.toNat blockIds ≠ total.toNat ∨
      ∃ details ∈ blockIds, details.h ∉ c.core) :
    (c.handleResponseChainEntry start.toNat total.toNat blockIds).Dropped ∨
      Advances c (c.handleResponseChainEntry start.toNat total.toNat blockIds) ∧
        ∀ details ∈ blockIds,
          (c.handleResponseChainEntry start.toNat total.toNat blockIds).Knows details.h := by
  rw [handleResponseChainEntry]
  cases hhead : blockIds.head? with
  | none => exact Or.inl (dropped_drop_addIpFail hactions)
  | some front =>
      simp only
      by_cases hfront : c.haveBlock front.h = false
      · rw [if_pos hfront]
        exact Or.inl (dropped_drop_addIpFail hactions)
      rw [if_neg hfront, if_neg (Nat.not_lt.mpr hle), hneeded, List.nil_append]
      obtain ⟨hadvances, hknows⟩ := @requestMissingObjects_advances θ _
        ⟨{ c.context with
            remoteBlockchainHeight := total.toNat
            lastResponseHeight := chainEntryHeight start.toNat blockIds
            neededObjects := blockIds.filter fun details => !c.haveBlock details.h },
          c.core, c.actions⟩ false hactions hrequested (fun hnothing => by
            refine le_remoteHeightBelow hle total.toNat_lt ?_
            rcases hne with rfl | hne | ⟨details, hmem, hunknown⟩
            · exact Or.inl rfl
            · exact Or.inr hne
            · refine absurd (List.mem_filter.mpr ⟨hmem, ?_⟩) (List.eq_nil_iff_forall_not_mem.mp
                hnothing details)
              rw [haveBlock, decide_eq_false hunknown]
              rfl)
      refine Or.inr ⟨⟨hadvances.callbacks, hadvances.asks⟩, fun details hmem =>
        hknows details.h ?_⟩
      by_cases hhave : details.h ∈ c.core
      · exact Or.inl hhave
      · refine Or.inr (Or.inl (List.mem_map_of_mem (List.mem_filter.mpr ⟨hmem, ?_⟩)))
        rw [haveBlock, decide_eq_false hhave]
        rfl

end HandlerState

/-! ## Runs without a stall -/

namespace SyncConnection

open HandlerState

variable {θ : Type*} {s : SyncConnection θ}

/-- What every event of a regular run keeps: at most the one request of a synchronizing connection
is outstanding, and objects are needed or requested only while an answer with objects is due. -/
structure Inv (s : SyncConnection θ) : Prop where
  dropIsLast : DropIsLast s.lastActions s.context.state
  outstanding : s.dropped = false →
    s.outstanding = if s.context.state = .stateSynchronizing then 1 else 0
  idle : s.dropped = false → s.objectsRequests = 0 →
    s.context.neededObjects = [] ∧ s.context.requestedObjects = []
  covered : s.dropped = false → s.Covered

theorem Inv.sound (h : Inv s) : Sound s :=
  ⟨h.dropIsLast, fun hd hs => by rw [h.outstanding hd, if_pos hs], fun hd _ => h.covered hd⟩

theorem dropIsLast_of_dropped {c : HandlerState θ} (h : c.Dropped) :
    DropIsLast c.actions c.context.state ∧ c.actions.any isDrop = true := by
  obtain ⟨last, hactions, hlast⟩ : ∃ last : List PeerAction,
      c.actions = .dropConnection c.context.state :: last ∧ ∀ a ∈ last, a = .addIpFail := by
    rcases h with h | h
    · exact ⟨[], h, by simp⟩
    · exact ⟨[.addIpFail], h, by simp⟩
  rw [hactions]
  refine ⟨?_, rfl⟩
  rintro before after st heq
  cases before with
  | nil =>
      cases heq
      exact ⟨hlast, rfl⟩
  | cons a before =>
      obtain ⟨-, rfl⟩ := List.cons.inj heq
      cases hlast (.dropConnection st) (List.mem_append_right _ List.mem_cons_self)

theorem dropIsLast_of_no_drop {actions : List PeerAction} {state : ConnectionState}
    (h : ∀ a ∈ actions, isDrop a = false) : DropIsLast actions state := by
  rintro before after st rfl
  exact absurd (h _ (List.mem_append_right _ List.mem_cons_self)) (by simp [isDrop])

theorem inv_connect (core : List θ) (debugged : Bool) : Inv (connect core debugged) :=
  ⟨dropIsLast_of_no_drop fun _ h => absurd h List.not_mem_nil, fun _ => rfl,
    fun _ _ => ⟨rfl, rfl⟩, fun _ _ h => absurd h List.not_mem_nil⟩

/-- After a drop nothing is promised but that it was the last thing done. -/
theorem inv_of_dropped {t : SyncConnection θ} {c : HandlerState θ} (h : c.Dropped) :
    Inv (t.after c) := by
  obtain ⟨hlast, hany⟩ := dropIsLast_of_dropped h
  have hdropped : (t.after c).dropped ≠ false := by
    rw [show (t.after c).dropped = true from hany]
    decide
  exact ⟨hlast, fun h => absurd h hdropped, fun h => absurd h hdropped,
    fun h => absurd h hdropped⟩

/-- A handler that advances after the one answer that was due. -/
theorem inv_of_advances {t : SyncConnection θ} {c c' : HandlerState θ} (h : Advances c c')
    (hstate : c.context.state = .stateSynchronizing) (hchain : t.chainRequests = 0)
    (hobjects : t.objectsRequests = 0) (hcallbacks : c.context.callbackRequestCount = 0)
    (hcovered : ∀ id ∈ t.announced, c'.Knows id) : Inv (t.after c') := by
  have hcb := h.callbacks
  rw [hcallbacks] at hcb
  rcases h.asks with ⟨hact, hsame⟩ | ⟨hneeded, hrequested, ⟨hact, hsame⟩ | ⟨hact, hnormal⟩⟩
  · refine ⟨?_, fun _ => ?_, fun _ hzero => ?_, fun _ => hcovered⟩
    · exact dropIsLast_of_no_drop (by show ∀ a ∈ c'.actions, _; rw [hact]; simp [isDrop])
    · simp [SyncConnection.outstanding, after, hact, hchain, hobjects, hcb, hsame, hstate]
    · simp [after, hact] at hzero
  · refine ⟨?_, fun _ => ?_, fun _ _ => ⟨hneeded, hrequested⟩, fun _ => hcovered⟩
    · exact dropIsLast_of_no_drop (by show ∀ a ∈ c'.actions, _; rw [hact]; simp [isDrop])
    · simp [SyncConnection.outstanding, after, hact, hchain, hobjects, hcb, hsame, hstate]
  · refine ⟨?_, fun _ => ?_, fun _ _ => ⟨hneeded, hrequested⟩, fun _ => hcovered⟩
    · exact dropIsLast_of_no_drop (by show ∀ a ∈ c'.actions, _; rw [hact]; simp)
    · simp [SyncConnection.outstanding, after, hact, hchain, hobjects, hcb, hnormal]

/-- A handler that answers the peer at most and leaves the connection as it is. -/
theorem Inv.quiet (h : Inv s) (hd : s.dropped = false) {c : HandlerState θ}
    (hcontext : c.context = s.context)
    (hcore : ∀ id ∈ s.announced, id ∈ s.core → id ∈ c.core ∨
      id ∈ s.context.neededObjects.map BlockContextInfo.h ∨ id ∈ s.context.requestedObjects)
    (hactions : ∀ a ∈ c.actions, a = .notifyResponseGetObjects ∨ a = .notifyResponseChainEntry) :
    Inv (s.after c) := by
  have hnodrop : ∀ a ∈ c.actions, isDrop a = false := by
    intro a ha
    rcases hactions a ha with rfl | rfl <;> rfl
  have hcount : ∀ a : PeerAction, a ≠ .notifyResponseGetObjects → a ≠ .notifyResponseChainEntry →
      c.actions.count a = 0 := by
    intro a h1 h2
    refine List.count_eq_zero.mpr fun ha => ?_
    rcases hactions a ha with h' | h'
    · exact h1 h'
    · exact h2 h'
  have hchain := hcount .notifyRequestChain (by decide) (by decide)
  have hobjects := hcount .notifyRequestGetObjects (by decide) (by decide)
  refine ⟨dropIsLast_of_no_drop hnodrop, fun _ => ?_, fun _ hzero => ?_, fun _ id hid => ?_⟩
  · have hout := h.outstanding hd
    simp only [SyncConnection.outstanding, after, hchain, hobjects, hcontext] at hout ⊢
    exact hout
  · have hzero' : s.objectsRequests = 0 := by
      simp only [after, hobjects, Nat.add_zero] at hzero
      exact hzero
    have hidle := h.idle hd hzero'
    show c.context.neededObjects = [] ∧ c.context.requestedObjects = []
    rw [hcontext]
    exact hidle
  · show id ∈ c.core ∨ id ∈ c.context.neededObjects.map BlockContextInfo.h ∨
      id ∈ c.context.requestedObjects
    rw [hcontext]
    rcases h.covered hd id hid with h' | h'
    · exact hcore id hid h'
    · exact Or.inr h'

/-- A connection that starts to synchronize with one request and nothing else outstanding. -/
theorem Inv.starts (h : Inv s) (hd : s.dropped = false)
    (hstate : s.context.state ≠ .stateSynchronizing) {c : HandlerState θ}
    (hneeded : c.context.neededObjects = s.context.neededObjects)
    (hrequested : c.context.requestedObjects = s.context.requestedObjects)
    (hcore : c.core = s.core) (hsync : c.context.state = .stateSynchronizing)
    (hasks : c.actions = [.notifyRequestChain] ∧
        c.context.callbackRequestCount = s.context.callbackRequestCount ∨
      c.actions = [.requestCallback] ∧
        c.context.callbackRequestCount = s.context.callbackRequestCount + 1) :
    Inv (s.after c) := by
  have hout := h.outstanding hd
  rw [if_neg hstate, SyncConnection.outstanding] at hout
  have hidle := h.idle hd (by omega)
  have hcovered : ∀ id ∈ s.announced, c.Knows id := by
    intro id hid
    rcases h.covered hd id hid with h' | h'
    · exact Or.inl (hcore ▸ h')
    · refine Or.inr ?_
      rw [hneeded, hrequested]
      exact h'
  refine ⟨dropIsLast_of_no_drop ?_, fun _ => ?_,
    fun _ _ => ⟨hneeded.trans hidle.1, hrequested.trans hidle.2⟩, fun _ => hcovered⟩
  · show ∀ a ∈ c.actions, _
    rcases hasks with ⟨hact, -⟩ | ⟨hact, -⟩
    · rw [hact]
      simp [isDrop]
    · rw [hact]
      simp [isDrop]
  · rcases hasks with ⟨hact, hcallbacks⟩ | ⟨hact, hcallbacks⟩
    · simp [SyncConnection.outstanding, after, hact, hsync, hcallbacks]
      omega
    · simp [SyncConnection.outstanding, after, hact, hsync, hcallbacks]
      omega

/-- A handler that does nothing. -/
theorem Inv.same (h : Inv s) (hd : s.dropped = false) : Inv (s.after ⟨s.context, s.core, []⟩) :=
  h.quiet hd rfl (fun _ _ hid => Or.inl hid) fun _ ha => absurd ha List.not_mem_nil

theorem inv_drop (s t : SyncConnection θ) :
    Inv (t.after (HandlerState.drop ⟨s.context, s.core, []⟩)) :=
  inv_of_dropped (dropped_drop rfl)

/-- Whatever is outstanding is the one request of a connection that synchronizes. -/
theorem Inv.synchronizing (h : Inv s) (hd : s.dropped = false)
    (hdue : 0 < s.chainRequests + s.objectsRequests + s.context.callbackRequestCount) :
    s.context.state = .stateSynchronizing ∧
      s.chainRequests + s.objectsRequests + s.context.callbackRequestCount = 1 := by
  have hout := h.outstanding hd
  rw [SyncConnection.outstanding] at hout
  by_cases hsync : s.context.state = .stateSynchronizing
  · rw [if_pos hsync] at hout
    exact ⟨hsync, hout⟩
  · rw [if_neg hsync] at hout
    omega

theorem Inv.callback (h : Inv s) (hd : s.dropped = false) :
    Inv (s.after (onCallback ⟨s.context, s.core, []⟩)) := by
  rw [onCallback]
  dsimp only
  by_cases hnone : s.context.callbackRequestCount = 0
  · rw [if_pos hnone]
    exact h.same hd
  rw [if_neg hnone]
  obtain ⟨hsync, hout⟩ := h.synchronizing hd (by omega)
  rw [if_pos hsync]
  -- the callback becomes a request
  refine ⟨dropIsLast_of_no_drop ?_, fun _ => ?_, fun _ _ => h.idle hd (by omega), fun _ =>
    h.covered hd⟩
  · show ∀ a ∈ ([] ++ [PeerAction.notifyRequestChain]), _
    simp [isDrop]
  · simp [SyncConnection.outstanding, after, act, hsync]
    omega

theorem Inv.notifyNewTransactions (h : Inv s) (hd : s.dropped = false)
    (verificationFailed : Bool) :
    Inv (s.after (handleNotifyNewTransactions ⟨s.context, s.core, []⟩ verificationFailed)) := by
  rw [handleNotifyNewTransactions]
  by_cases hfailed : verificationFailed = true
  · rw [if_pos hfailed]
    exact inv_drop s s
  · rw [if_neg hfailed]
    exact h.same hd

theorem Inv.requestGetObjects (h : Inv s) (hd : s.dropped = false) {blocksSize txsSize : Nat}
    {handleGetObjects : Bool}
    (hregular : s.Regular (.requestGetObjects blocksSize txsSize handleGetObjects)) :
    Inv (s.after (handleRequestGetObjects ⟨s.context, s.core, []⟩ blocksSize txsSize
      handleGetObjects)) := by
  obtain ⟨hblocks, htxs, hserved⟩ := hregular
  have hroom : ¬ (blocksSize > currencyProtocolMaxBlocksRequestCount ∨
      txsSize > currencyProtocolMaxTxsRequestCount) := by omega
  rw [handleRequestGetObjects, if_neg hroom, if_pos hserved]
  exact h.quiet hd rfl (fun _ _ hid => Or.inl hid) (by simp [act])

theorem Inv.requestChain (h : Inv s) (hd : s.dropped = false) (findBlockchainSupplement : Bool) :
    Inv (s.after (handleRequestChain ⟨s.context, s.core, []⟩ findBlockchainSupplement)) := by
  rw [handleRequestChain]
  by_cases hfound : findBlockchainSupplement = true
  · rw [if_pos hfound]
    exact h.quiet hd rfl (fun _ _ hid => Or.inl hid) (by simp [act])
  · rw [if_neg hfound]
    exact h.same hd

variable [DecidableEq θ]

theorem Inv.notifyNewBlock (h : Inv s) (hd : s.dropped = false) (id : θ)
    {outcome : NewBlockOutcome θ} (hdebugged : s.debugged = false)
    (hregular : s.Regular (.notifyNewBlock id outcome)) :
    Inv (s.after (handleNotifyNewBlock ⟨s.context, s.core, []⟩ id outcome)) := by
  rw [handleNotifyNewBlock.eq_def]
  dsimp only
  by_cases hnormal : s.context.state ≠ .stateNormal
  · rw [if_pos hnormal]
    exact h.same hd
  rw [if_neg hnormal]
  have hnotsync : s.context.state ≠ .stateSynchronizing := by
    rw [not_not.mp hnormal]
    decide
  cases outcome with
  | notParsed => exact inv_drop s s
  | inQueueOrCore => exact h.same hd
  | wrongTransaction => exact inv_drop s s
  | verificationFailed => exact inv_drop s s
  | addedOrKept pruned =>
      have hasked := hregular hdebugged (not_not.mp hnormal)
      refine h.quiet hd rfl (fun other hother hcore => ?_) (by simp)
      by_cases hpruned : other ∈ pruned
      · exact Or.inr (hasked other hother hpruned)
      · exact Or.inl (mem_pruneBlocks.mpr ⟨List.mem_cons_of_mem _ hcore, hpruned⟩)
  | markedAsOrphaned => exact h.starts hd hnotsync rfl rfl rfl rfl (Or.inl ⟨rfl, rfl⟩)

theorem Inv.coreLoses (h : Inv s) (hd : s.dropped = false) {ids : List θ}
    (hasked : s.StillAsked ids) :
    Inv (s.after ⟨s.context, pruneBlocks s.core ids, []⟩) := by
  refine h.quiet hd rfl (fun id hid hcore => ?_) fun _ ha => absurd ha List.not_mem_nil
  by_cases hlost : id ∈ ids
  · exact Or.inr (hasked id hid hlost)
  · exact Or.inl (mem_pruneBlocks.mpr ⟨hcore, hlost⟩)

theorem Inv.payloadSyncData (h : Inv s) (hd : s.dropped = false) (hshd : SyncData θ) :
    Inv (s.after (processPayloadSyncData ⟨s.context, s.core, []⟩ hshd)) := by
  rw [processPayloadSyncData]
  dsimp only
  by_cases hbefore : s.context.state = .stateBeforHandshake ∧ hshd.isInital = false
  · rw [if_pos hbefore]
    exact h.same hd
  rw [if_neg hbefore]
  by_cases htime : hshd.timeErrorHandled = true
  · rw [if_pos htime]
    exact h.same hd
  rw [if_neg htime]
  by_cases hsync : s.context.state = .stateSynchronizing
  · rw [if_pos hsync]
    exact h.same hd
  rw [if_neg hsync]
  by_cases hknown : hshd.haveInQue = true ∨
      haveBlock (⟨s.context, s.core, []⟩ : HandlerState θ) hshd.topId = true
  · -- the peer has nothing new: the connection is normal with nothing outstanding
    have hout := h.outstanding hd
    rw [if_neg hsync, SyncConnection.outstanding] at hout
    rw [if_pos hknown]
    refine ⟨dropIsLast_of_no_drop (fun _ ha => absurd ha List.not_mem_nil), fun _ => ?_,
      fun _ => h.idle hd, fun _ => h.covered hd⟩
    simp [SyncConnection.outstanding, after]
    omega
  rw [if_neg hknown]
  by_cases hcheckpoint : hshd.lastCheckpointHeight ≠ 0 ∧
      hshd.topCheckpointHeight < hshd.lastCheckpointHeight ∧
        hshd.currentBlockchainSize < hshd.lastCheckpointHeight
  · rw [if_pos hcheckpoint]
    exact h.same hd
  · rw [if_neg hcheckpoint]
    exact h.starts hd hsync rfl rfl rfl rfl (Or.inr ⟨rfl, rfl⟩)

theorem Inv.responseGetObjects (h : Inv s) (hd : s.dropped = false) {height : UInt64}
    {blocks : List (SyncBlockEntry θ)} (hregular : s.Regular (.responseGetObjects height blocks)) :
    Inv ((s.answered (.responseGetObjects height blocks)).after
      (handleResponseGetObjects ⟨s.context, s.core, []⟩ height.toNat blocks)) := by
  obtain ⟨-, hdue, ⟨hsecond, hnew⟩, hheight, hback⟩ := hregular
  obtain ⟨hsync, hout⟩ := h.synchronizing hd (by omega)
  have hnone : s.chainRequests = 0 ∧ s.objectsRequests - 1 = 0 ∧
      s.context.callbackRequestCount = 0 := by omega
  rcases @handleResponseGetObjects_spec θ _ ⟨s.context, s.core, []⟩ height blocks rfl hsecond
    hnew hheight with hended | ⟨hadvances, hknows⟩
  · exact inv_of_dropped hended
  · exact inv_of_advances hadvances hsync hnone.1 hnone.2.1 hnone.2.2 fun id hid =>
      hknows id (hback id hid) (h.covered hd id hid)

theorem Inv.responseChainEntry (h : Inv s) (hd : s.dropped = false)
    {startHeight totalHeight : UInt64} {blockIds : List (BlockContextInfo θ)}
    (hregular : s.Regular (.responseChainEntry startHeight totalHeight blockIds)) :
    Inv ((s.answered (.responseChainEntry startHeight totalHeight blockIds)).after
      (handleResponseChainEntry ⟨s.context, s.core, []⟩ startHeight.toNat totalHeight.toNat
        blockIds)) := by
  obtain ⟨-, hdue, hle, hne⟩ := hregular
  obtain ⟨hsync, hout⟩ := h.synchronizing hd (by omega)
  have hnone : s.chainRequests - 1 = 0 ∧ s.objectsRequests = 0 ∧
      s.context.callbackRequestCount = 0 := by omega
  have hidle := h.idle hd hnone.2.1
  rcases @handleResponseChainEntry_spec θ _ ⟨s.context, s.core, []⟩ startHeight totalHeight
    blockIds rfl hidle.1 hidle.2 hle hne with hended | ⟨hadvances, hknows⟩
  · exact inv_of_dropped hended
  · -- the announced ids are those of the entry now
    refine inv_of_advances hadvances hsync hnone.1 hnone.2.1 hnone.2.2 fun id hid => ?_
    obtain ⟨details, hmem, rfl⟩ := List.mem_map.mp hid
    exact hknows details hmem

/-- A regular event keeps the invariant. -/
theorem Inv.step (h : Inv s) {e : SyncEvent θ} (hregular : s.Regular e) : Inv (s.step e) := by
  rw [SyncConnection.step]
  by_cases hdropped : s.dropped = true
  · rw [if_pos hdropped]
    exact h
  have hd : s.dropped = false := by simpa using hdropped
  rw [if_neg hdropped]
  -- a debugged peer is ignored, but for its handshake
  have hunless : ∀ c : HandlerState θ, Inv (s.after c) →
      Inv (s.after (if s.debugged then ⟨s.context, s.core, []⟩ else c)) := by
    intro c hc
    by_cases hdebugged : s.debugged = true
    · rw [if_pos hdebugged]
      exact h.same hd
    · rw [if_neg hdebugged]
      exact hc
  cases e with
  | payloadSyncData hshd => exact h.payloadSyncData hd hshd
  | callback => exact h.callback hd
  | notifyNewBlock id outcome =>
      show Inv (s.after (if s.debugged then ⟨s.context, s.core, []⟩ else
        handleNotifyNewBlock ⟨s.context, s.core, []⟩ id outcome))
      by_cases hdebugged : s.debugged = true
      · rw [if_pos hdebugged]
        exact h.same hd
      · rw [if_neg hdebugged]
        exact h.notifyNewBlock hd id (by simpa using hdebugged) hregular
  | notifyNewTransactions verificationFailed =>
      exact hunless _ (h.notifyNewTransactions hd verificationFailed)
  | requestGetObjects blocksSize txsSize handleGetObjects =>
      exact hunless _ (h.requestGetObjects hd hregular)
  | requestChain findBlockchainSupplement =>
      exact hunless _ (h.requestChain hd findBlockchainSupplement)
  | coreGains id =>
      exact h.quiet hd rfl (fun _ _ hid => Or.inl (List.mem_cons_of_mem _ hid))
        (fun _ ha => absurd ha List.not_mem_nil)
  | coreLoses ids => exact h.coreLoses hd hregular
  | responseGetObjects height blocks =>
      show Inv ((s.answered (.responseGetObjects height blocks)).after (if s.debugged then _ else
        handleResponseGetObjects ⟨s.context, s.core, []⟩ height.toNat blocks))
      rw [if_neg (by rw [hregular.1]; decide)]
      exact h.responseGetObjects hd hregular
  | responseChainEntry startHeight totalHeight blockIds =>
      show Inv ((s.answered (.responseChainEntry startHeight totalHeight blockIds)).after
        (if s.debugged then _ else handleResponseChainEntry ⟨s.context, s.core, []⟩
          startHeight.toNat totalHeight.toNat blockIds))
      rw [if_neg (by rw [hregular.1]; decide)]
      exact h.responseChainEntry hd hregular

theorem Inv.run {events : List (SyncEvent θ)} (h : Inv s) (hregular : s.RegularRun events) :
    Inv (s.run events) := by
  induction events generalizing s with
  | nil => exact h
  | cons e events ih => exact ih (h.step hregular.1) hregular.2

/-- In every run of regular events the synchronization neither stalls nor acts on a dropped
peer. -/
theorem synchronization_sound_of_regular (core : List θ) (debugged : Bool)
    (events : List (SyncEvent θ)) (h : (connect core debugged).RegularRun events) :
    ((connect core debugged).run events).Sound :=
  ((inv_connect core debugged).run h).sound

/-- The block 2 that was asked for arrives, 3 is pruned then and once more later. -/
theorem synchronization_sound_of_regular_sample :
    ((connect [1, 3] false).run
        [.payloadSyncData ⟨5, 2, 0, true, false, false, 0, 1⟩, .callback,
          .responseChainEntry 0 5 [⟨1, 10⟩, ⟨2, 20⟩],
          .responseGetObjects 5 [⟨false, some (2, 0), false, [], false, false, false, [3]⟩],
          .coreLoses [3]]).Sound ∧
      ((connect [1, 3] false).run
        [.payloadSyncData ⟨5, 2, 0, true, false, false, 0, 1⟩, .callback,
          .responseChainEntry 0 5 [⟨1, 10⟩, ⟨2, 20⟩],
          .responseGetObjects 5 [⟨false, some (2, 0), false, [], false, false, false, [3]⟩],
          .coreLoses [3]]).core = [2, 1] := by
  refine ⟨synchronization_sound_of_regular [1, 3] false _ ?_, by decide⟩
  refine ⟨trivial, trivial, ⟨by decide, by decide, by decide, Or.inr (Or.inl (by decide))⟩,
    ⟨by decide, by decide, ⟨fun _ _ _ h => by simp at h, by decide⟩, fun _ => Or.inr (by decide),
      fun id hid => Or.inr ?_⟩, fun id hid hlost => ?_, trivial⟩
  · rintro before entry later hblocks hpruned
    rcases List.cons_eq_append_iff.mp hblocks with ⟨rfl, hcons⟩ | ⟨before', rfl, hnil⟩
    · obtain ⟨rfl, -⟩ := List.cons.inj hcons
      have hid' : id ∈ [1, 2] := hid
      simp at hpruned hid'
      omega
    · simp at hnil
  · have hid' : id ∈ [1, 2] := hid
    simp at hlost hid'
    omega

/-- A total height equal to the last one, with nothing new, leaves the connection synchronizing with
nothing outstanding; after the drop for a total height below the last one, objects are requested;
after the drop for too many objects, the request is answered; an entry that was not asked for
puts a second request out; and an announced id that is pruned is nowhere. -/
theorem synchronization_stalls :
    ¬ ((connect [1] false).run
        [.payloadSyncData ⟨5, 2, 0, true, false, false, 0, 1⟩, .callback,
          .responseChainEntry 1 1 [⟨1, 10⟩]]).Sound ∧
      ¬ ((connect [1] false).run
        [.payloadSyncData ⟨5, 2, 0, true, false, false, 0, 1⟩, .callback,
          .responseChainEntry 7 5 [⟨1, 10⟩, ⟨2, 20⟩]]).Sound ∧
        ¬ ((connect [1] false).run [.requestGetObjects 501 0 true]).Sound ∧
          ¬ ((connect [1] false).run
            [.payloadSyncData ⟨5, 2, 0, true, false, false, 0, 1⟩,
              .responseChainEntry 0 5 [⟨1, 10⟩, ⟨2, 20⟩]]).Sound ∧
            ¬ ((connect [1, 3] false).run
              [.payloadSyncData ⟨9, 2, 0, true, false, false, 0, 1⟩, .callback,
                .responseChainEntry 0 9 [⟨1, 10⟩, ⟨3, 10⟩, ⟨2, 20⟩],
                .responseGetObjects 9
                  [⟨false, some (2, 0), false, [], false, false, false, [3]⟩]]).Sound := by
  refine ⟨fun h => ?_, fun h => ?_, fun h => ?_, fun h => ?_, fun h => ?_⟩
  · exact absurd (h.outstanding (by decide) (by decide)) (by decide)
  · have hsent := (h.dropIsLast [] [.addIpFail, .notifyRequestGetObjects] .stateSynchronizing
      (by decide)).1 .notifyRequestGetObjects (by decide)
    cases hsent
  · have hsent := (h.dropIsLast [] [.notifyResponseGetObjects] .stateBeforHandshake
      (by decide)).1 .notifyResponseGetObjects (by decide)
    cases hsent
  · exact absurd (h.outstanding (by decide) (by decide)) (by decide)
  · exact absurd (h.covered (by decide) (by decide) 3 (by decide)) (by decide)

end SyncConnection
end Chinet
