/-
The client's muxer (`run_client_muxer` of `transport/stream.rs`): the task behind a stream that was
connected by a client. It owns one managed session, hands what the session receives to the application
and tells the caller of `connect` when the session is connected. It takes one event at a time, so it is
a machine over received packets, outbound messages, ticks and the events that end its loop.
-/
import BedrockRs.Raknet.Transport.Mux

namespace BedrockRs.Raknet.Transport

open Lib

/-- Configuration of a client's stream, with its defaults. -/
structure RaknetStreamConfig where
  mtu : UInt16 := 1400
  sessionTimeout : Duration := Duration.fromSecs 10
  maxOrderingChannels : Nat := 16
  ackQueueCapacity : Nat := 1024
  splitTimeout : Duration := Duration.fromSecs 30
  reliableWindow : Nat := maxAckSequences
  maxSplitParts : Nat := 8192
  maxConcurrentSplits : Nat := 4096
  maxSentDatagrams : Option Nat := none
  sentDatagramTimeout : Option Duration := none

/-- What is fixed while the muxer runs: the start of the process for RakNet times, the server and what the
offline handshake found out about it, and the configuration. -/
structure ClientMuxerContext where
  start : Instant
  server : SocketAddr
  serverGuid : UInt64
  clientGuid : UInt64
  secureConnectionEstablished : Bool
  config : RaknetStreamConfig

/-- The errors with which `connect` fails when the server turns the client down (`error/mod.rs`). -/
inductive ConnectError
  | connectionRequestFailed
  | alreadyConnected
  | incompatibleProtocolVersion
  | serverFull
  | connectionBanned
  | ipRecentlyConnected
deriving DecidableEq

/-- The error that a packet outside of datagrams stands for, if it is one of the refusals. -/
def RaknetPacket.refusal : RaknetPacket → Option ConnectError
  | .connectionRequestFailed _ => some .connectionRequestFailed
  | .alreadyConnected _ => some .alreadyConnected
  | .incompatibleProtocolVersion _ => some .incompatibleProtocolVersion
  | .noFreeIncomingConnections => some .serverFull
  | .connectionBanned _ => some .connectionBanned
  | .ipRecentlyConnected => some .ipRecentlyConnected
  | _ => none

/-- What a branch of the loop reads besides the muxer's state. -/
structure ClientEnv where
  /-- `Instant::now()` in the branch. -/
  now : Instant
  /-- `Instant::now()` in `queue_app_packet`, which the outbound branch calls. -/
  clock : Instant
  /-- If the application drops its stream before it is told that the session is closed: how many more
  messages it takes until then. -/
  dropsAfter : Option Nat

/-- The configuration of a client's session. -/
def ClientMuxerContext.sessionConfig (ctx : ClientMuxerContext) : SessionConfig where
  role := .client
  guid := ctx.clientGuid
  sessionTimeout := ctx.config.sessionTimeout
  session :=
    { maxOrderingChannels := ctx.config.maxOrderingChannels
      ackQueueCapacity := ctx.config.ackQueueCapacity
      splitTimeout := ctx.config.splitTimeout
      reliableWindow := ctx.config.reliableWindow
      maxSplitParts := ctx.config.maxSplitParts
      maxConcurrentSplits := ctx.config.maxConcurrentSplits
      maxSentDatagrams := ctx.config.maxSentDatagrams.getD ctx.config.reliableWindow
      sentDatagramTimeout := ctx.config.sentDatagramTimeout.getD (Duration.fromSecs 10) }

/-- The state of the loop. `ready` is what was sent to the caller of `connect`, if anything was yet, and
`running` tells whether the loop is still taking events. -/
structure ClientMuxer (F : Type) where
  managed : Option (ManagedSession F)
  handshakeStarted : Bool
  ready : Option (Except ConnectError Unit)
  running : Bool

/-- A datagram has a flag that says so; offline packets have identifiers without. -/
def isDatagramHeader (header : UInt8) : Bool := !(header < 0x80 && header &&& 0x60 == 0)

/-- The application messages that get through to an application which drops its stream after `dropsAfter`
of them, and whether all do. -/
def deliverToApp (server : SocketAddr) (msgs : List ReceivedMessage) (dropsAfter : Option Nat) : List Output × Bool :=
  let items (msgs : List ReceivedMessage) := msgs.map fun msg => Output.toApp server (.ok msg)
  match dropsAfter with
  | none => (items msgs, true)
  | some n => (items (msgs.take n), decide (msgs.length ≤ n))

namespace ClientMuxer

variable {F : Type} [Float64 F] (ctx : ClientMuxerContext)

def ensureClientSession (m : ClientMuxer F) (now : Instant) : ManagedSession F :=
  m.managed.getD (ManagedSession.withConfig ctx.server ctx.config.mtu.toNat now ctx.sessionConfig)

/-- Starts the online handshake, once. -/
def ensureClientHandshake (ms : ManagedSession F) (handshakeStarted : Bool) (now : Instant) :
    Option (List Output × ManagedSession F × Bool) :=
  if handshakeStarted then some ([], ms, true)
  else
    match ms.startClientHandshake ctx.start ctx.serverGuid now ctx.secureConnectionEstablished with
    | (.error _, ms) => some ([], ms, false)
    | (.ok (), ms) => do
      let (out, ms) ← flushManaged ctx.start ms ctx.server now none
      return (out, ms, true)

/-- Signals readiness once the session is connected. -/
def notifyClientReady (ms : ManagedSession F) (ready : Option (Except ConnectError Unit)) :
    Option (Except ConnectError Unit) :=
  if ms.isConnected && ready.isNone then some (.ok ()) else ready

/-- What the application is told when its session is closed: its reason, if there is one. -/
def closedError (ms : ManagedSession F) : RaknetError :=
  match ms.lastDisconnectReason with
  | some reason => .disconnected reason
  | none => .connectionClosed

/-- A packet that is no datagram: a refusal ends the loop, anything else is ignored. -/
def handleNonDatagram (m : ClientMuxer F) (bytes : Bytes) : ClientMuxer F :=
  match RaknetPacket.decodeFrom bytes with
  | .ok pkt =>
    match RaknetPacket.refusal pkt with
    | some e => { m with ready := some (m.ready.getD (.error e)), running := false }
    | none => m
  | .error _ => m

/-- A datagram with an address of unknown version is skipped altogether. -/
def isInvalidAddrVersion : Except SessionError (List IncomingPacket) → Bool
  | .error (.protocol (.invalidAddrVersion _)) => true
  | _ => false

/-- The messages of a handled datagram; a failed one brings none. -/
def receivedMessages : Except SessionError (List IncomingPacket) → List ReceivedMessage
  | .ok pkts => intoReceivedMessages (ManagedSession.filterAppPackets pkts)
  | .error _ => []

/-- After the messages of a datagram: readiness, the check for a closed session, the flush. -/
def concludeDatagram (m : ClientMuxer F) (env : ClientEnv) (ms : ManagedSession F) :
    Option (List Output × ClientMuxer F) :=
  let m := { m with managed := some ms, ready := notifyClientReady ms m.ready }
  if ms.state = .closed then
    let told := if env.dropsAfter.isNone then [Output.toApp ctx.server (.error (closedError ms))] else []
    some (told, { m with running := false })
  else do
    let (sent, ms) ← flushManaged ctx.start ms ctx.server env.now none
    return (sent, { m with managed := some ms })

/-- A received datagram. -/
def handleDatagram (m : ClientMuxer F) (env : ClientEnv) (dgram : Datagram) : Option (List Output × ClientMuxer F) := do
  let (started, ms, handshakeStarted) ← ensureClientHandshake ctx (m.ensureClientSession ctx env.now) m.handshakeStarted
    env.now
  let (res, ms) := ms.handleDatagram ctx.start dgram env.now
  let m := { m with managed := some ms, handshakeStarted }
  if isInvalidAddrVersion res then return (started, m)
  else
    let (delivered, taken) := deliverToApp ctx.server (receivedMessages res) env.dropsAfter
    if taken then
      let (out, m) ← m.concludeDatagram ctx env ms
      return (started ++ delivered ++ out, m)
    else return (started ++ delivered, { m with running := false })

/-- A received packet. -/
def handlePacket (m : ClientMuxer F) (env : ClientEnv) (bytes : Bytes) (peer : SocketAddr) :
    Option (List Output × ClientMuxer F) :=
  if peer ≠ ctx.server then some ([], m)
  else
    match bytes with
    | [] => some ([], m)
    | header :: _ =>
      if !isDatagramHeader header then some ([], m.handleNonDatagram bytes)
      else
        match Datagram.decode.run bytes with
        | .ok (dgram, _) => m.handleDatagram ctx env dgram
        | .error _ => some ([], m)

/-- A message of the application. -/
def handleOutbound (m : ClientMuxer F) (env : ClientEnv) (msg : OutboundMsg) : Option (List Output × ClientMuxer F) :=
  do
  let (started, ms, handshakeStarted) ← ensureClientHandshake ctx (m.ensureClientSession ctx env.now) m.handshakeStarted
    env.now
  let (_, ms) := ms.queueAppPacket msg.packet msg.reliability msg.channel msg.priority env.clock
  let (sent, ms) ← flushManaged ctx.start ms ctx.server env.now none
  return (started ++ sent, { m with managed := some ms, handshakeStarted, ready := notifyClientReady ms m.ready })

/-- The tick. -/
def handleTick (m : ClientMuxer F) (env : ClientEnv) (iter : IterOrder SplitEntries.Item) :
    Option (List Output × ClientMuxer F) :=
  match m.managed with
  | none => some ([], m)
  | some ms => do
    let (sent, ms) ← flushManaged ctx.start ms ctx.server env.now (some iter)
    return (sent, { m with managed := some ms, ready := notifyClientReady ms m.ready })

/-- The end of the loop, when it is cancelled or the socket fails: a connected session says goodbye. -/
def shutdown (m : ClientMuxer F) (env : ClientEnv) (iter : IterOrder SplitEntries.Item) :
    Option (List Output × ClientMuxer F) :=
  match m.managed with
  | none => some ([], { m with running := false })
  | some ms =>
    if ms.isConnected then do
      let (_, ms) := ms.sendDisconnect .disconnected
      let (sent, ms) ← flushManaged ctx.start ms ctx.server env.now (some iter)
      return (sent, { m with managed := some ms, running := false })
    else some ([], { m with running := false })

/-! ## The muxer as a machine -/

/-- An event that the loop takes up. `iter` is the order in which the session walks its split entries. -/
inductive Event
  | received (env : ClientEnv) (bytes : Bytes) (peer : SocketAddr)
  /-- The socket reports that a connection was reset, which the loop ignores. -/
  | reset
  | outbound (env : ClientEnv) (msg : OutboundMsg)
  | tick (env : ClientEnv) (iter : IterOrder SplitEntries.Item)
  | stop (env : ClientEnv) (iter : IterOrder SplitEntries.Item)

/-- A loop that has ended takes no more events. -/
def step (m : ClientMuxer F) (e : Event) : Option (List Output × ClientMuxer F) :=
  if m.running then
    match e with
    | .received env bytes peer => m.handlePacket ctx env bytes peer
    | .reset => some ([], m)
    | .outbound env msg => m.handleOutbound ctx env msg
    | .tick env iter => m.handleTick ctx env iter
    | .stop env iter => m.shutdown ctx env iter
  else some ([], m)

/-- The muxer when its loop begins. -/
def begin (now : Instant) : Option (List Output × ClientMuxer F) := do
  let m : ClientMuxer F := ⟨none, false, none, true⟩
  let (started, ms, handshakeStarted) ← ensureClientHandshake ctx (m.ensureClientSession ctx now) m.handshakeStarted now
  return (started, { m with managed := some ms, handshakeStarted })

/-- A step that also collects what has been handed out. -/
def next (s : List Output × ClientMuxer F) (e : Event) : Option (List Output × ClientMuxer F) := do
  let (out, m) ← s.2.step ctx e
  return (s.1 ++ out, m)

/-- All that has been handed out and the muxer after some events, if it has not panicked. -/
def after (now : Instant) (events : List Event) : Option (List Output × ClientMuxer F) :=
  Machine.run (Machine.advance (next ctx)) (begin ctx now) events

end ClientMuxer

end BedrockRs.Raknet.Transport
