/-
The listener (`transport/listener.rs`, `listener/offline.rs`, `listener/online.rs`): the muxer task that
owns the map of sessions and the map of pending handshakes, with its three handlers for a received
UDP packet, an outbound message of the application and the tick. The task takes one event at a time,
so the listener is a machine over such events in any order.

What a handler reads from outside its state comes with the event (`Env`): the clocks, the socket's own
address, the advertisement, and whether the acceptor still takes connections. A handler that panics
returns `none`.

A step is a handler that came to its end. The handlers await their sends to the application, and a
channel of an application that does not read is full after 128 of them; such a handler holds up the
whole muxer, and its step is the one it makes if the application reads on.
-/
import BedrockRs.Lib.HashMap
import BedrockRs.Raknet.Transport.Mux

namespace BedrockRs.Raknet.Transport

open Lib

/-! ## Configuration and state -/

/-- Configuration of a listener, with its defaults. -/
structure RaknetListenerConfig where
  maxConnections : Nat := 1024
  maxPendingConnections : Nat := 1024
  maxMtu : UInt16 := 1400
  sessionTimeout : Duration := Duration.fromSecs 10
  sessionStale : Duration := Duration.fromSecs 5
  maxQueuedReliableBytes : Nat := 4 * 1024 * 1024
  maxOrderingChannels : Nat := 16
  ackQueueCapacity : Nat := 1024
  splitTimeout : Duration := Duration.fromSecs 30
  reliableWindow : Nat := maxAckSequences
  maxSplitParts : Nat := 8192
  maxConcurrentSplits : Nat := 4096
  sentDatagramTimeout : Duration := Duration.fromSecs 10

/-- What is fixed while the process runs: the configuration, the start of the process for RakNet times,
the server's GUID, and the standard library's hash of an address and the system time. -/
structure Host where
  config : RaknetListenerConfig
  start : Instant
  serverGuid : UInt64
  hash : SocketAddr → Option UInt64 → UInt64

/-- What a handler reads besides the listener's state. -/
structure Env where
  /-- `Instant::now()` in the handler. -/
  now : Instant
  /-- `Instant::now()` in `queue_app_packet`, which the outbound handler calls. -/
  clock : Instant
  /-- Nanoseconds since the Unix epoch, if the system clock is not before it. -/
  systemTime : Option UInt64
  /-- `socket.local_addr()`. -/
  localAddr : Option SocketAddr
  advertisement : Bytes
  /-- Whether the receiving end of the channel of new connections is still there. -/
  accepting : Bool

/-- A handshake between its two requests. -/
structure PendingConnection where
  mtu : UInt16
  expiresAt : Instant
  cookie : UInt32
deriving DecidableEq

/-- Per-peer session state. `pendingRx` tells whether the receiving end of the peer's channel is still
waiting to be handed to the acceptor. -/
structure SessionState (F : Type) where
  managed : ManagedSession F
  pendingRx : Bool
  announced : Bool

structure Listener (F : Type) where
  sessions : HashMap SocketAddr (SessionState F)
  pending : HashMap SocketAddr PendingConnection

/-- The configuration of a session on this host. -/
def Host.serverSessionConfig (host : Host) : SessionConfig where
  role := .server
  guid := host.serverGuid
  sessionTimeout := host.config.sessionTimeout
  sessionStale := host.config.sessionStale
  maxQueuedReliableBytes := some host.config.maxQueuedReliableBytes
  session :=
    { maxOrderingChannels := host.config.maxOrderingChannels
      ackQueueCapacity := host.config.ackQueueCapacity
      splitTimeout := host.config.splitTimeout
      reliableWindow := host.config.reliableWindow
      maxSplitParts := host.config.maxSplitParts
      maxConcurrentSplits := host.config.maxConcurrentSplits
      maxSentDatagrams := host.config.reliableWindow
      sentDatagramTimeout := host.config.sentDatagramTimeout }

variable {F : Type} [Float64 F]

/-- The state a session is inserted with. -/
def SessionState.fresh (host : Host) (peer : SocketAddr) (mtu : Nat) (now : Instant) : SessionState F :=
  ⟨ManagedSession.withConfig peer mtu now host.serverSessionConfig, true, false⟩

/-- Hands a session that is connected for the first time to the acceptor. -/
def maybeAnnounceConnection (env : Env) (peer : SocketAddr) (state : SessionState F) : List Output × SessionState F :=
  if state.announced || !state.managed.isConnected then ([], state)
  else if state.pendingRx then
    (if env.accepting then [.newConnection peer] else [], { state with pendingRx := false, announced := env.accepting })
  else ([], state)

/-! ## Offline packets -/

/-- `MINIMUM_MTU_SIZE` and `MAXIMUM_MTU_SIZE`, `RAKNET_PROTOCOL_VERSION`. -/
def minimumMtuSize : UInt16 := 576
def maximumMtuSize : UInt16 := 1400
def raknetProtocolVersion : UInt8 := 11

/-- Whether an identifier is that of an offline packet. -/
def isOfflinePacketId (id : UInt8) : Bool := id == 0x01 || id == 0x02 || id == 0x05 || id == 0x07

/-- `v.clamp(min, max)`, which panics when the bounds are the wrong way round. -/
def clampMtu (v min max : UInt16) : Option UInt16 :=
  if max < min then none else some (if v < min then min else if max < v then max else v)

/-- A cookie never starts with the version byte of an address, which follows the magic when there is no
cookie. -/
def Host.generateCookie (host : Host) (env : Env) (peer : SocketAddr) : UInt32 :=
  let cookie := (host.hash peer env.systemTime &&& 0xffffffff).toUInt32
  let firstByte := (cookie >>> 24).toUInt8
  if firstByte = 4 ∨ firstByte = 6 then cookie ^^^ 0x01000000 else cookie

def sendUnconnectedPacket (peer : SocketAddr) (pkt : RaknetPacket) : List Output :=
  match pkt.encode with
  | .ok buf => [.sendTo buf peer]
  | .error _ => []

/-- The answer to both kinds of unconnected ping. -/
def Host.pong (host : Host) (env : Env) (peer : SocketAddr) (req : UnconnectedPing) : List Output :=
  if req.magic ≠ defaultUnconnectedMagic then []
  else
    sendUnconnectedPacket peer (.unconnectedPong
      ⟨req.pingTime, host.serverGuid, defaultUnconnectedMagic,
      if env.advertisement.isEmpty then none else some env.advertisement⟩)

/-- The MTU that a first request of this length probes for; `as u16` truncates. -/
def mtuGuess (peer : SocketAddr) (req : OpenConnectionRequest1) : UInt16 :=
  let ipHeader := if peer.isIpv4 then 20 else 40
  UInt16.ofNat (req.padding + 1 + 16 + 1 + ipHeader + Datagram.udpHeaderSize)

namespace Listener

omit [Float64 F] in
def handleRequest1 (host : Host) (env : Env) (l : Listener F) (peer : SocketAddr) (req : OpenConnectionRequest1) :
    Option (List Output × Listener F) :=
  if req.magic ≠ defaultUnconnectedMagic then some ([], l)
  else if req.protocolVersion ≠ raknetProtocolVersion then
    some (sendUnconnectedPacket peer (.incompatibleProtocolVersion
      ⟨raknetProtocolVersion, defaultUnconnectedMagic, host.serverGuid⟩), l)
  else do
    let mtuClamped ← clampMtu (mtuGuess peer req) minimumMtuSize host.config.maxMtu
    let cookie := host.generateCookie env peer
    if l.sessions.len ≥ host.config.maxConnections then
      return (sendUnconnectedPacket peer .noFreeIncomingConnections, l)
    else if l.pending.len ≥ host.config.maxPendingConnections then return ([], l)
    else
      let pc : PendingConnection := ⟨mtuClamped, env.now + Duration.fromSecs 10, cookie⟩
      return (sendUnconnectedPacket peer (.openConnectionReply1
          ⟨defaultUnconnectedMagic, host.serverGuid, some cookie, mtuClamped⟩),
        { l with pending := l.pending.insert peer pc })

/-- `OpenConnectionReply2` to a peer. -/
def reply2 (host : Host) (env : Env) (peer : SocketAddr) (mtu : UInt16) : List Output :=
  sendUnconnectedPacket peer (.openConnectionReply2
    ⟨defaultUnconnectedMagic, host.serverGuid, env.localAddr.getD peer, mtu, true⟩)

/-- The session that a completed handshake inserts. -/
def accept (host : Host) (env : Env) (l : Listener F) (peer : SocketAddr) (mtu : UInt16) : List Output × Listener F :=
  let (announced, state) := maybeAnnounceConnection env peer (SessionState.fresh host peer mtu.toNat env.now)
  (announced ++ reply2 host env peer mtu, { l with sessions := l.sessions.insert peer state })

def handleRequest2 (host : Host) (env : Env) (l : Listener F) (peer : SocketAddr) (req : OpenConnectionRequest2) :
    List Output × Listener F :=
  if req.magic ≠ defaultUnconnectedMagic then ([], l)
  else
    match l.pending.lookup peer with
    | none =>
      -- the client missed the reply and asks again
      match l.sessions.lookup peer with
      | some state => (reply2 host env peer (UInt16.ofNat state.managed.inner.mtu), l)
      | none => ([], l)
    | some pc =>
      let l := { l with pending := l.pending.erase peer }
      if req.cookie ≠ some pc.cookie then ([], l)
      else if req.mtu < minimumMtuSize ∨ maximumMtuSize < req.mtu then
        (sendUnconnectedPacket peer (.alreadyConnected ⟨defaultUnconnectedMagic, host.serverGuid⟩), l)
      else l.accept host env peer (min pc.mtu req.mtu)

/-- Drops the pending handshakes that have expired. -/
def expirePending (l : Listener F) (now : Instant) : Listener F :=
  { l with pending := l.pending.retain fun p => p.expiresAt > now }

def handleOffline (host : Host) (env : Env) (l : Listener F) (bytes : Bytes) (peer : SocketAddr) :
    Option (List Output × Listener F) :=
  let l := l.expirePending env.now
  match RaknetPacket.decodeFrom bytes with
  | .error _ => some ([], l)
  | .ok (.unconnectedPing req) => some (host.pong env peer req, l)
  | .ok (.unconnectedPingOpenConnections req) => some (host.pong env peer req, l)
  | .ok (.openConnectionRequest1 req) => l.handleRequest1 host env peer req
  | .ok (.openConnectionRequest2 req) => some (l.handleRequest2 host env peer req)
  | .ok _ => some ([], l)

/-! ## Online packets -/

/-- What the application is told when its session is found closed. -/
def closedNotice (peer : SocketAddr) (state : SessionState F) : List Output :=
  if state.announced then
    match state.managed.lastDisconnectReason with
    | some reason => [.toApp peer (.error (.disconnected reason))]
    | none => [.toApp peer (.error .connectionClosed)]
  else []

/-- The application messages of a handled datagram; a failed one delivers nothing. -/
def delivered (peer : SocketAddr) : Except SessionError (List IncomingPacket) → List Output
  | .ok pkts => (intoReceivedMessages (ManagedSession.filterAppPackets pkts)).map fun msg => .toApp peer (.ok msg)
  | .error _ => []

/-- A packet from a peer with a session, once all it delivers is in the channel. The flags say whether it was a
datagram, and whether the session is closed afterwards. -/
def handleIncomingUdp (host : Host) (env : Env) (bytes : Bytes) (peer : SocketAddr) (state : SessionState F) :
    Option ((Bool × Bool) × List Output × SessionState F) :=
  match Datagram.decode.run bytes with
  | .error _ => some ((false, false), [], state)
  | .ok (dgram, _) => do
    let (res, managed) := state.managed.handleDatagram host.start dgram env.now
    let (announced, state) := maybeAnnounceConnection env peer { state with managed }
    let (sent, managed) ← flushManaged host.start state.managed peer env.now none
    let state := { state with managed }
    let out := delivered peer res ++ announced ++ sent
    if state.managed.state = .closed then return ((true, true), out ++ closedNotice peer state, state)
    else return ((true, false), out, state)

def dispatchDatagram (host : Host) (env : Env) (l : Listener F) (bytes : Bytes) (peer : SocketAddr) :
    Option (List Output × Listener F) :=
  match l.sessions.lookup peer with
  | some state => do
    let ((decoded, shouldRemove), out, state) ← handleIncomingUdp host env bytes peer state
    let l := { l with sessions := l.sessions.replace peer state }
    let l := if shouldRemove then { l with sessions := l.sessions.erase peer } else l
    if !decoded then
      match bytes with
      -- `bytes[0]` of an empty slice
      | [] => none
      | id :: _ =>
        if isOfflinePacketId id then l.handleOffline host env bytes peer
        else handleOffline host env { l with sessions := l.sessions.erase peer } bytes peer
    else return (out, l)
  | none =>
    match bytes with
    | [] => some ([], l)
    | id :: _ => if isOfflinePacketId id then l.handleOffline host env bytes peer else some ([], l)

/-- `sessions.entry(peer).or_insert_with(..)`. -/
def sessionOrInsert (host : Host) (env : Env) (l : Listener F) (peer : SocketAddr) : SessionState F × Listener F :=
  match l.sessions.lookup peer with
  | some state => (state, l)
  | none =>
    let state := SessionState.fresh host peer host.config.maxMtu.toNat env.now
    (state, { l with sessions := l.sessions.insert peer state })

def handleOutgoingMsg (host : Host) (env : Env) (l : Listener F) (msg : OutboundMsg) :
    Option (List Output × Listener F) := do
  let (state, l) := l.sessionOrInsert host env msg.peer
  let (_, managed) := state.managed.queueAppPacket msg.packet msg.reliability msg.channel msg.priority env.clock
  let (sent, managed) ← flushManaged host.start managed msg.peer env.now none
  return (sent, { l with sessions := l.sessions.replace msg.peer { state with managed } })

/-! ## The tick -/

/-- The loop of `tick_sessions`: every session is ticked and flushed in place, and the peers of the closed
ones are collected. -/
def tickLoop (host : Host) (env : Env) (splits : SocketAddr → IterOrder SplitEntries.Item) :
    List (HashMap.Item SocketAddr (SessionState F)) → HashMap SocketAddr (SessionState F) →
    Option (List Output × List SocketAddr × HashMap SocketAddr (SessionState F))
  | [], sessions => some ([], [], sessions)
  | ⟨peer, state⟩ :: rest, sessions => do
    let (sent, managed) ← flushManaged host.start state.managed peer env.now (some (splits peer))
    let state := { state with managed }
    let (out, dead, sessions) ← tickLoop host env splits rest (sessions.replace peer state)
    if state.managed.state = .closed then return (sent ++ closedNotice peer state ++ out, peer :: dead, sessions)
    else return (sent ++ out, dead, sessions)

/-- The tick, once it has walked all sessions: `iter` is the order in which it meets them, `splits` the order in
which each session walks its split entries. -/
def tickSessions (host : Host) (env : Env) (l : Listener F)
    (iter : IterOrder (HashMap.Item SocketAddr (SessionState F))) (splits : SocketAddr → IterOrder SplitEntries.Item) :
    Option (List Output × Listener F) := do
  let (out, dead, sessions) ← tickLoop host env splits (iter.order l.sessions.entries) l.sessions
  return (out, { l with sessions := dead.foldl (fun sessions peer => sessions.erase peer) sessions })

/-! ## The listener as a machine -/

/-- An event that the muxer's loop takes up. -/
inductive Event (F : Type)
  | datagram (env : Env) (bytes : Bytes) (peer : SocketAddr)
  | outbound (env : Env) (msg : OutboundMsg)
  | tick (env : Env) (iter : IterOrder (HashMap.Item SocketAddr (SessionState F)))
    (splits : SocketAddr → IterOrder SplitEntries.Item)

def step (host : Host) (l : Listener F) : Event F → Option (List Output × Listener F)
  | .datagram env bytes peer => l.dispatchDatagram host env bytes peer
  | .outbound env msg => l.handleOutgoingMsg host env msg
  | .tick env iter splits => l.tickSessions host env iter splits

omit [Float64 F] in
/-- The listener at the start of `run_listener_muxer`. -/
def new : Listener F := ⟨∅, ∅⟩

/-- The listener after some events, if it has not panicked. -/
def after (host : Host) (events : List (Event F)) : Option (Listener F) :=
  Machine.run (Machine.advance fun l e => (l.step host e).map Prod.snd) (some new) events

omit [Float64 F] in
/-- The events that touch the session of a peer: its packets, and the messages for it. -/
def Event.concerns (p : SocketAddr) : Event F → Prop
  | .datagram _ _ peer => peer = p
  | .outbound _ msg => msg.peer = p
  | .tick .. => False

omit [Float64 F] in
/-- The clock readings of the handler of an event. -/
def Event.readings : Event F → List Instant
  | .datagram env _ _ | .tick env _ _ => [env.now]
  | .outbound env _ => [env.now, env.clock]

end Listener

/-! ## Fixed surroundings -/

/-- A host whose hash is constant. -/
def Host.plain (config : RaknetListenerConfig) : Host := ⟨config, 0, 1, fun _ _ => 7⟩

/-- The surroundings of a handler at a moment: both clock readings are the same. -/
def Env.at (now : Instant) : Env := ⟨now, now, none, none, [], true⟩

end BedrockRs.Raknet.Transport
