import Chinet.P2p.Peerlist

/-!
# The node server

The part of `node_server` that fills the peer lists and blocks addresses: the handshakes and
timed syncs in both directions, the pings back to incoming peers, the recorded failures, and the
state file with which the node starts again.
-/

namespace Chinet

def p2pIpBlocktime : Int := 60 * 60 * 24

def p2pIpFailsBeforBlock : Nat := 10

def p2pDefaultPeersInHandshake : BitVec 32 := 250

structure P2pConnectionContext where
  connectionId : Nat
  remoteIp : BitVec 32
  remotePort : BitVec 32
  isIncome : Bool
  peerId : BitVec 64
deriving DecidableEq

/-- What the callback of `try_ping` keeps until the answer to the ping is there. -/
structure PingBack where
  ip : BitVec 32
  port : BitVec 32
  peerId : BitVec 64
deriving DecidableEq

/-- What `try_to_connect_and_handshake_with_new_peer` keeps after its handshake. -/
structure Handshaked where
  na : NetAddress
  pi : BitVec 64
deriving DecidableEq

/-- The answers that do not depend on the peer lists: those of the network id, the client
version, the maintainers entry and `process_payload_sync_data`. -/
structure SyncChecks where
  networkId : Bool
  clientVersion : Bool
  maintrsEntry : Bool
  payloadData : Bool

/-- `COMMAND_HANDSHAKE::request` -/
structure HandshakeRequest where
  checks : SyncChecks
  peerId : BitVec 64
  myPort : BitVec 32

/-- `COMMAND_HANDSHAKE::response` -/
structure HandshakeResponse where
  checks : SyncChecks
  peerId : BitVec 64
  localTime : Int
  localPeerlist : List PeerlistEntry

/-- `COMMAND_TIMED_SYNC::response` -/
structure TimedSyncResponse where
  checks : SyncChecks
  localTime : Int
  localPeerlist : List PeerlistEntry

/-- The file that `store_config` writes, without what it keeps of the maintainers. -/
structure StateFile where
  localTime : Int
  peerlist : PeerlistManager
  blockedIps : BitVec 32 → Option Int

/-- The arguments of the node; the peers to add come with the ids that are drawn for them. -/
structure CommandLine where
  allowLocalIp : Bool
  offlineMode : Bool
  ipAutoBlocking : Bool
  addPeer : List (NetAddress × BitVec 64)

/-! ## The peer lists -/

namespace PeerlistManager

/-- A list with an entry from the future is cleared. -/
def clearFuture (now : Int) (l : PeersIndexed) : PeersIndexed :=
  if l.entries.any fun ple => ple.lastSeen > now then .empty else l

/-- `init`, after the lists were loaded. -/
def init (m : PeerlistManager) (allowLocalIp : Bool) (now : Int) : PeerlistManager where
  allowLocalIp := allowLocalIp
  peersWhite := clearFuture now m.peersWhite
  peersGray := clearFuture now m.peersGray

/-- The loop of `get_peerlist_head`, which leaves after the entry that its counter passed. -/
def peerlistHeadFrom (depth : BitVec 32) : BitVec 32 → List PeerlistEntry → List PeerlistEntry
  | _, [] => []
  | cnt, vl :: rest =>
      if vl.lastSeen = 0 then peerlistHeadFrom depth cnt rest
      else if depth < cnt then [vl]
      else vl :: peerlistHeadFrom depth (cnt + 1) rest

def getPeerlistHead (m : PeerlistManager) (depth : BitVec 32) : List PeerlistEntry :=
  peerlistHeadFrom depth 0 m.peersWhite.entries.reverse

end PeerlistManager

/-! ## The server -/

structure NodeServer where
  offlineMode : Bool
  ipAutoBlockingEnabled : Bool
  /-- `m_config.m_peer_id` -/
  peerId : BitVec 64
  peerlist : PeerlistManager
  blockedIps : BitVec 32 → Option Int
  ipFailsScore : BitVec 32 → Nat
  connections : List P2pConnectionContext
  pings : List PingBack
  handshaked : List Handshaked
  stateFile : Option StateFile
  /-- `time(nullptr)` -/
  now : Int

namespace NodeServer

/-! ## The start -/

/-- `unserialize_obj_from_file`, for a file that is not older than two weeks; `serialize` gives
up on one from the future. -/
def loadState (stateFile : Option StateFile) (allowLocalIp : Bool) (now : Int) :
    PeerlistManager × (BitVec 32 → Option Int) :=
  match stateFile with
  | none => (.empty allowLocalIp, fun _ => none)
  | some file =>
      if now - file.localTime < 86400 * 14 ∧ ¬ file.localTime > now then
        (file.peerlist, file.blockedIps)
      else (.empty allowLocalIp, fun _ => none)

/-- `init_config`, with `init` of the peer lists. -/
def initConfig (line : CommandLine) (peerId : BitVec 64) (stateFile : Option StateFile)
    (now : Int) : NodeServer where
  offlineMode := line.offlineMode
  ipAutoBlockingEnabled := line.ipAutoBlocking
  peerId := peerId
  peerlist := (loadState stateFile line.allowLocalIp now).1.init line.allowLocalIp now
  blockedIps := (loadState stateFile line.allowLocalIp now).2
  ipFailsScore := fun _ => 0
  connections := []
  pings := []
  handshaked := []
  stateFile := stateFile
  now := now

/-! ## Blocked addresses -/

def isIpInBlacklist (s : NodeServer) (addr : BitVec 32) : Bool × NodeServer :=
  match s.blockedIps addr with
  | none => (false, s)
  | some blockedAt =>
      if s.now - blockedAt > p2pIpBlocktime then
        (false, { s with blockedIps := fun ip => if ip = addr then none else s.blockedIps ip })
      else (true, s)

/-- Whether an address is blocked now. -/
def blocked (s : NodeServer) (addr : BitVec 32) : Bool := (s.isIpInBlacklist addr).1

def isRemoteIpAllowed (s : NodeServer) (addr : BitVec 32) : Bool × NodeServer :=
  if s.offlineMode then (false, s)
  else if !s.ipAutoBlockingEnabled then (true, s)
  else (!(s.isIpInBlacklist addr).1, (s.isIpInBlacklist addr).2)

/-- The auto blocking of addresses makes no difference here. -/
def isIpGoodForAddingToPeerlist (s : NodeServer) (addr : BitVec 32) : Bool × NodeServer :=
  if s.offlineMode then (false, s)
  else (!(s.isIpInBlacklist addr).1, (s.isIpInBlacklist addr).2)

def blockIp (s : NodeServer) (addr : BitVec 32) : NodeServer :=
  { s with
    blockedIps := fun ip => if ip = addr then some s.now else s.blockedIps ip
    peerlist := s.peerlist.removePeersByIpFromAll addr }

def addIpFail (s : NodeServer) (address : BitVec 32) : NodeServer :=
  let fails := s.ipFailsScore address + 1
  if fails > p2pIpFailsBeforBlock then
    { s with
      ipFailsScore := fun ip =>
        if ip = address then p2pIpFailsBeforBlock / 2 else s.ipFailsScore ip }.blockIp address
  else
    { s with ipFailsScore := fun ip => if ip = address then fails else s.ipFailsScore ip }

/-! ## Connections -/

def findConnection (s : NodeServer) (id : Nat) : Option P2pConnectionContext :=
  s.connections.find? fun context => context.connectionId = id

/-- `close` and `drop_connection` -/
def close (s : NodeServer) (id : Nat) : NodeServer :=
  { s with connections := s.connections.filter fun context => context.connectionId ≠ id }

def isPeerIdUsed (s : NodeServer) (id : BitVec 64) : Bool :=
  if id = s.peerId then true
  else s.connections.any fun context => id = context.peerId

def setPeerId (s : NodeServer) (id : Nat) (peerId : BitVec 64) : NodeServer :=
  { s with
    connections := s.connections.map fun context =>
      if context.connectionId = id then { context with peerId := peerId } else context }

/-- A connection that the other side asks for, behind the filter of the network server. -/
def accept (s : NodeServer) (id : Nat) (remote : NetAddress) : NodeServer :=
  let (allowed, s) := s.isRemoteIpAllowed remote.ip
  if allowed then
    { s with connections := s.connections ++ [⟨id, remote.ip, remote.port, true, 0⟩] }
  else s

/-- A connection that this node makes. -/
def connect (s : NodeServer) (id : Nat) (na : NetAddress) : NodeServer :=
  { s with connections := s.connections ++ [⟨id, na.ip, na.port, false, 0⟩] }

/-! ## Remote lists -/

/-- `none` stands for a list with an entry from the future. -/
def fixTimeDelta (now localTime : Int) (localPeerlist : List PeerlistEntry) :
    Option (List PeerlistEntry) :=
  if localPeerlist.any fun be => be.lastSeen > localTime then none
  else some (localPeerlist.map fun be => { be with lastSeen := be.lastSeen + (now - localTime) })

def handleRemotePeerlist (s : NodeServer) (peerlist : List PeerlistEntry) (localTime : Int) :
    Bool × NodeServer :=
  match fixTimeDelta s.now localTime peerlist with
  | none => (false, s)
  | some peerlist => (true, { s with peerlist := s.peerlist.mergePeerlist peerlist })

def setPeerJustSeen (s : NodeServer) (peerId : BitVec 64) (addr : NetAddress) : NodeServer :=
  { s with peerlist := s.peerlist.setPeerJustSeen peerId addr s.now }

def appendWithPeerWhite (s : NodeServer) (ple : PeerlistEntry) : NodeServer :=
  { s with peerlist := s.peerlist.appendWithPeerWhite ple }

/-- `init`: the peers of the command line go into the white list. -/
def init (line : CommandLine) (peerId : BitVec 64) (stateFile : Option StateFile) (now : Int) :
    NodeServer :=
  line.addPeer.foldl (fun s peer => s.appendWithPeerWhite ⟨peer.1, peer.2, 0⟩)
    (initConfig line peerId stateFile now)

/-- `store_config` -/
def storeConfig (s : NodeServer) : NodeServer :=
  { s with stateFile := some ⟨s.now, s.peerlist, s.blockedIps⟩ }

/-! ## Outgoing handshakes and timed syncs -/

/-- The callback of `do_handshake_with_peer`. -/
def handshakeResponded (s : NodeServer) (id : Nat) (justTakePeerlist : Bool)
    (rsp : HandshakeResponse) : NodeServer :=
  match s.findConnection id with
  | none => s
  | some context =>
      -- the command goes out over connections of this node only
      if context.isIncome then s
      else if !rsp.checks.networkId then s.close id
      else if !rsp.checks.clientVersion then s.close id
      else if !rsp.checks.maintrsEntry then s.close id
      else
        let (merged, s) := s.handleRemotePeerlist rsp.localPeerlist rsp.localTime
        if !merged then (s.addIpFail context.remoteIp).close id
        else if justTakePeerlist then s.close id
        else if !rsp.checks.payloadData then s.close id
        else if s.isPeerIdUsed rsp.peerId then s.close id
        else
          let s := s.setPeerId id rsp.peerId
          let s := s.setPeerJustSeen rsp.peerId ⟨context.remoteIp, context.remotePort⟩
          if rsp.peerId = s.peerId then s.close id
          else
            { s with
              handshaked := s.handshaked ++
                [⟨⟨context.remoteIp, context.remotePort⟩, rsp.peerId⟩] }

/-- The end of `try_to_connect_and_handshake_with_new_peer`. -/
def connectionHandshaked (s : NodeServer) (index : Nat) : NodeServer :=
  match s.handshaked[index]? with
  | none => s
  | some made =>
      let s := { s with handshaked := s.handshaked.eraseIdx index }
      let (good, s) := s.isIpGoodForAddingToPeerlist made.na.ip
      -- the connection may have become a blocked one in the meantime
      if good then s.appendWithPeerWhite ⟨made.na, made.pi, s.now⟩ else s

/-- The callback of `do_peer_timed_sync`, which goes on after a recorded failure. -/
def timedSyncResponded (s : NodeServer) (id : Nat) (code : Int) (rsp : TimedSyncResponse) :
    NodeServer :=
  match s.findConnection id with
  | none => s
  | some context =>
      -- idle sync only with handshaked connections
      if context.peerId = 0 then s
      else if code < 0 then s
      else if !rsp.checks.maintrsEntry then s
      else
        let (merged, s) := s.handleRemotePeerlist rsp.localPeerlist rsp.localTime
        let s := if !merged then (s.close id).addIpFail context.remoteIp else s
        if !context.isIncome then
          s.setPeerJustSeen context.peerId ⟨context.remoteIp, context.remotePort⟩
        else s

/-! ## Incoming handshakes and timed syncs -/

def tryPing (s : NodeServer) (context : P2pConnectionContext) (myPort : BitVec 32)
    (peerId : BitVec 64) : NodeServer :=
  if myPort = 0 then s
  else if !s.peerlist.isIpAllowed context.remoteIp then s
  else { s with pings := s.pings ++ [⟨context.remoteIp, myPort, peerId⟩] }

/-- The list of the response is `none` where the handler leaves before it fills it. -/
def handleHandshake (s : NodeServer) (id : Nat) (arg : HandshakeRequest) :
    Option (List PeerlistEntry) × NodeServer :=
  match s.findConnection id with
  | none => (none, s)
  | some context =>
      if !arg.checks.networkId then (none, (s.close id).addIpFail context.remoteIp)
      else if !context.isIncome then (none, (s.close id).addIpFail context.remoteIp)
      else if context.peerId ≠ 0 then (none, s.close id)
      else if s.isPeerIdUsed arg.peerId then (none, s.close id)
      else if !arg.checks.clientVersion then (none, (s.close id).addIpFail context.remoteIp)
      else if !arg.checks.maintrsEntry then (none, s)
      else if !arg.checks.payloadData then (none, s.close id)
      else
        let s := s.setPeerId id arg.peerId
        let s :=
          if arg.peerId ≠ s.peerId ∧ arg.myPort ≠ 0 then
            let (good, s) := s.isIpGoodForAddingToPeerlist context.remoteIp
            if good then s.tryPing context arg.myPort arg.peerId else s
          else s
        (some (s.peerlist.getPeerlistHead p2pDefaultPeersInHandshake), s)

def handleTimedSync (s : NodeServer) (id : Nat) (checks : SyncChecks) :
    Option (List PeerlistEntry) × NodeServer :=
  match s.findConnection id with
  | none => (none, s)
  | some _ =>
      if !checks.maintrsEntry then (none, s)
      else if !checks.payloadData then (none, s.close id)
      else (some (s.peerlist.getPeerlistHead p2pDefaultPeersInHandshake), s)

/-- The answer to a ping back, with its status and peer id. -/
def pingResponded (s : NodeServer) (index : Nat) (code : Int) (statusOk : Bool)
    (peerId : BitVec 64) : NodeServer :=
  match s.pings[index]? with
  | none => s
  | some ping =>
      let s := { s with pings := s.pings.eraseIdx index }
      if code ≤ 0 then s
      else if !statusOk || ping.peerId ≠ peerId then s
      else s.appendWithPeerWhite ⟨⟨ping.ip, ping.port⟩, ping.peerId, s.now⟩

/-! ## Runs -/

/-- What happens to a node.  It stores its state from time to time and when it stops, and starts
again with what it stored last; the peer id is drawn anew. -/
inductive Event where
  | elapse (seconds : Nat)
  | storeConfig
  | restart (line : CommandLine) (peerId : BitVec 64)
  | accept (id : Nat) (remote : NetAddress)
  | connect (id : Nat) (na : NetAddress)
  | close (id : Nat)
  /-- A failure that the handlers of the currency protocol record. -/
  | addIpFail (id : Nat)
  | handshakeResponded (id : Nat) (justTakePeerlist : Bool) (rsp : HandshakeResponse)
  | connectionHandshaked (index : Nat)
  | timedSyncResponded (id : Nat) (code : Int) (rsp : TimedSyncResponse)
  | handleHandshake (id : Nat) (arg : HandshakeRequest)
  | handleTimedSync (id : Nat) (checks : SyncChecks)
  | pingResponded (index : Nat) (code : Int) (statusOk : Bool) (peerId : BitVec 64)

def step (s : NodeServer) : Event → NodeServer
  | .elapse seconds => { s with now := s.now + seconds }
  | .storeConfig => s.storeConfig
  | .restart line peerId => init line peerId s.stateFile s.now
  | .accept id remote => s.accept id remote
  | .connect id na => s.connect id na
  | .close id => s.close id
  | .addIpFail id =>
      match s.findConnection id with
      | none => s
      | some context => s.addIpFail context.remoteIp
  | .handshakeResponded id justTakePeerlist rsp => s.handshakeResponded id justTakePeerlist rsp
  | .connectionHandshaked index => s.connectionHandshaked index
  | .timedSyncResponded id code rsp => s.timedSyncResponded id code rsp
  | .handleHandshake id arg => (s.handleHandshake id arg).2
  | .handleTimedSync id checks => (s.handleTimedSync id checks).2
  | .pingResponded index code statusOk peerId => s.pingResponded index code statusOk peerId

def run (s : NodeServer) (events : List Event) : NodeServer := events.foldl step s

end NodeServer

end Chinet
