/-
The managed session (`session/manager.rs`, `manager/control.rs`, `manager/tick.rs`): a session with a
connection state, the control packets that drive it, keep-alive pings, timeouts and the limit on
queued reliable bytes.

The clock is an argument: `start` is `raknet_start_time()`, and `queue_app_packet`, which reads
`Instant::now()` itself, takes that reading as `clock`.
-/
import BedrockRs.Raknet.Session.Tick

namespace BedrockRs.Raknet

open Lib

/-- High-level connection state for a managed RakNet session. -/
inductive ConnectionState
  | unconnected
  | onlineHandshake
  | connected
  | stale
  | closing
  | closed
deriving DecidableEq, Repr

/-- Errors that can occur when using a managed session at a high level. -/
inductive SessionError
  | closed
  | invalidState (state : ConnectionState) (msg : String)
  | protocol (e : DecodeError)
deriving DecidableEq

/-- Role the managed session is acting in. -/
inductive SessionRole
  | client
  | server
deriving DecidableEq, Repr

/-- Configuration for the high-level session manager. -/
structure SessionConfig where
  role : SessionRole := .client
  guid : UInt64 := 0
  sessionStale : Duration := Duration.fromMillis 5000
  sessionTimeout : Duration := Duration.fromMillis 10000
  pingInterval : Duration := Duration.fromMillis 500
  maxQueuedReliableBytes : Option Nat := none
  session : SessionTunables := {}
deriving DecidableEq

/-- Higher-level wrapper around `Session` that tracks connection state, last activity and enforces a
few simple state rules. -/
structure ManagedSession (F : Type) where
  inner : Session F
  peer : SocketAddr
  state : ConnectionState
  lastActivity : Instant
  config : SessionConfig
  lastPongReceived : Instant
  lastPingSent : Option Instant
  currentPingNonce : Option UInt64
  queuedReliableBytes : Nat
  remoteGuid : Option UInt64
  lastDisconnectReason : Option DisconnectReason

namespace RaknetPacket

def isUnconnectedPacket : RaknetPacket → Bool
  | unconnectedPing _ | unconnectedPong _ | unconnectedPingOpenConnections _ => true
  | _ => false

def isAppPacket : RaknetPacket → Bool
  | userData .. => true
  | _ => false

def isConnectionEstablished : RaknetPacket → Bool
  | newIncomingConnection _ | connectionRequestAccepted _ | connectionRequest _ => true
  | _ => false

def isConnectionClosed : RaknetPacket → Bool
  | disconnectionNotification _ => true
  | _ => false

end RaknetPacket

namespace ManagedSession

variable {F : Type} [Float64 F]

def withConfig (peer : SocketAddr) (mtu : Nat) (now : Instant) (config : SessionConfig) : ManagedSession F where
  inner := Session.withTunables mtu config.session
  peer := peer
  state := .unconnected
  lastActivity := now
  config := config
  lastPongReceived := now
  lastPingSent := none
  currentPingNonce := none
  queuedReliableBytes := 0
  remoteGuid := none
  lastDisconnectReason := none

def new (peer : SocketAddr) (mtu : Nat) (now : Instant) : ManagedSession F := withConfig peer mtu now {}

omit [Float64 F] in
def isConnected (m : ManagedSession F) : Bool :=
  match m.state with
  | .connected | .stale => true
  | _ => false

/-! ## Queueing -/

/-- `saturating_add` of `usize`. -/
def saturatingAdd (a b : Nat) : Nat := min (a + b) (2 ^ 64 - 1)

/-- Hands a packet to the session and counts its reliable bytes. -/
def queueInner (m : ManagedSession F) (pkt : RaknetPacket) (rel : Reliability) (channel : UInt8)
    (priority : RakPriority) : ManagedSession F :=
  let (added, inner) := m.inner.queuePacket pkt rel channel priority
  { m with inner, queuedReliableBytes := saturatingAdd m.queuedReliableBytes added }

omit [Float64 F] in
/-- The checks of `queue_app_packet`: the state must allow the packet and the channel must exist. -/
def checkAppPacket (m : ManagedSession F) (pkt : RaknetPacket) (channel : UInt8) : Except SessionError Unit := do
  match m.state with
  | .closed | .closing => throw .closed
  | .unconnected | .onlineHandshake =>
    if pkt.isAppPacket then
      throw (.invalidState m.state "cannot send user data before connection is established")
  | .connected | .stale =>
    if pkt.isUnconnectedPacket then
      throw (.invalidState m.state "cannot send unconnected packet on a connected session")
  if channel.toNat ≥ m.config.session.maxOrderingChannels then
    throw (.invalidState m.state "ordering channel out of range")

/-- Queues a high-level RakNet packet for sending. -/
def queueAppPacket (m : ManagedSession F) (pkt : RaknetPacket) (rel : Reliability) (channel : UInt8)
    (priority : RakPriority) (clock : Instant) : Except SessionError Unit × ManagedSession F :=
  match m.checkAppPacket pkt channel with
  | .error e => (.error e, m)
  | .ok () => (.ok (), { m.queueInner pkt rel channel priority with lastActivity := clock })

def queueControlPacket (m : ManagedSession F) (pkt : RaknetPacket) (rel : Reliability) (channel : UInt8)
    (priority : RakPriority) : ManagedSession F :=
  if channel.toNat ≥ m.config.session.maxOrderingChannels then m else m.queueInner pkt rel channel priority

/-! ## Control packets -/

/-- The milliseconds since `start`, as sent on the wire. -/
def currentRaknetTime (start now : Instant) : RaknetTime :=
  UInt64.ofNat (Duration.asMillis (Instant.durationSince now start))

/-- `LOCAL_IP_ADDRESSES_V4` or `LOCAL_IP_ADDRESSES_V6`, by the family of the peer's address. -/
def defaultSystemAddresses (peer : SocketAddr) : List.Vector SocketAddr 10 :=
  if peer.isIpv4 then SocketAddr.loopbackV4 ::ᵥ List.Vector.replicate 9 SocketAddr.anyV4
  else SocketAddr.loopbackV6 ::ᵥ List.Vector.replicate 9 SocketAddr.anyV6

/-- Begins the client-side online handshake by emitting a `ConnectionRequest`. -/
def startClientHandshake (start : Instant) (m : ManagedSession F) (serverGuid : UInt64) (now : Instant)
    (secure : Bool) : Except SessionError Unit × ManagedSession F :=
  if m.state = .closed then (.error .closed, m)
  else if m.config.role ≠ .client then
    (.error (.invalidState m.state "cannot start client handshake when not acting as a client"), m)
  else
    let m := { m with
      remoteGuid := some serverGuid, state := .onlineHandshake, lastActivity := now, lastPongReceived := now }
    let pkt := RaknetPacket.connectionRequest ⟨m.config.guid, currentRaknetTime start now, secure⟩
    (.ok (), m.queueControlPacket pkt .reliable 0 .immediate)

/-- Sends a graceful `DisconnectionNotification` and moves to closing. -/
def sendDisconnect (m : ManagedSession F) (reason : DisconnectReason) : Except SessionError Unit × ManagedSession F :=
  if m.state = .closed then (.error .closed, m)
  else
    let m := m.queueControlPacket (.disconnectionNotification ⟨reason⟩) .reliable 0 .immediate
    (.ok (), { m with state := .closing, lastDisconnectReason := some reason })

def handleConnectionRequest (start : Instant) (m : ManagedSession F) (req : ConnectionRequest) (now : Instant) :
    ManagedSession F :=
  if m.config.role ≠ .server then m
  else
    let m := { m with
      remoteGuid := some req.clientGuid, state := .onlineHandshake, lastActivity := now, lastPongReceived := now }
    let packet := RaknetPacket.connectionRequestAccepted
      ⟨m.peer, 47, defaultSystemAddresses m.peer, req.timestamp, currentRaknetTime start now⟩
    m.queueControlPacket packet .unreliable 0 .immediate

def handleConnectionRequestAccepted (start : Instant) (m : ManagedSession F) (pkt : ConnectionRequestAccepted)
    (now : Instant) : ManagedSession F :=
  if m.config.role ≠ .client then m
  else
    let m := { m with state := .onlineHandshake, lastActivity := now, lastPongReceived := now }
    let packet := RaknetPacket.newIncomingConnection
      ⟨m.peer, defaultSystemAddresses m.peer, currentRaknetTime start now, pkt.requestTimestamp⟩
    { m.queueControlPacket packet .reliableOrdered 0 .immediate with state := .connected }

omit [Float64 F] in
def handleConnectionRequestFailed (m : ManagedSession F) : ManagedSession F :=
  { m with state := .closed, lastDisconnectReason := some .connectionRequestFailed }

omit [Float64 F] in
def handleNewIncomingConnection (m : ManagedSession F) (now : Instant) : ManagedSession F :=
  { m with state := .connected, lastActivity := now, lastPongReceived := now }

def handleConnectedPing (start : Instant) (m : ManagedSession F) (pkt : ConnectedPing) (now : Instant) :
    ManagedSession F :=
  let m := { m with lastActivity := now }
  m.queueControlPacket (.connectedPong ⟨pkt.pingTime, currentRaknetTime start now⟩) .unreliable 0 .immediate

omit [Float64 F] in
def handleConnectedPong (m : ManagedSession F) (pkt : ConnectedPong) (now : Instant) : ManagedSession F :=
  let m := { m with lastActivity := now, lastPongReceived := now }
  if m.currentPingNonce = some pkt.pingTime then { m with currentPingNonce := none } else m

omit [Float64 F] in
def handleDisconnectionNotification (m : ManagedSession F) (pkt : DisconnectionNotification) : ManagedSession F :=
  { m with state := .closed, lastDisconnectReason := some pkt.reason }

omit [Float64 F] in
def handleGenericControlStates (m : ManagedSession F) (pkt : RaknetPacket) : ManagedSession F :=
  match m.state with
  | .unconnected | .onlineHandshake =>
    if pkt.isConnectionEstablished then { m with state := .connected } else m
  | .connected | .stale => if pkt.isConnectionClosed then { m with state := .closed } else m
  | .closing | .closed => m

def handleControlPacket (start : Instant) (m : ManagedSession F) (pkt : RaknetPacket) (now : Instant) :
    ManagedSession F :=
  match pkt with
  | .connectionRequest req => m.handleConnectionRequest start req now
  | .connectionRequestAccepted acc => m.handleConnectionRequestAccepted start acc now
  | .connectionRequestFailed _ => m.handleConnectionRequestFailed
  | .newIncomingConnection _ => m.handleNewIncomingConnection now
  | .connectedPing ping => m.handleConnectedPing start ping now
  | .connectedPong pong => m.handleConnectedPong pong now
  | .disconnectionNotification notification => m.handleDisconnectionNotification notification
  | pkt => m.handleGenericControlStates pkt

/-! ## Datagrams -/

/-- Handles an incoming datagram and returns the packets for the application. The sequence number is
processed after the payload, so a payload that fails is not acknowledged. -/
def handleDatagram (start : Instant) (m : ManagedSession F) (dgram : Datagram) (now : Instant) :
    Except SessionError (List IncomingPacket) × ManagedSession F :=
  if m.state = .closed then (.ok [], m)
  else
    let m : ManagedSession F := { m with
      lastActivity := now, state := if m.state = .stale then .connected else m.state }
    match dgram.payload with
    | .encapsulatedPackets packets =>
      match m.inner.handleDataPayload packets now with
      | (.error e, inner) => (.error (.protocol e), { m with inner })
      | (.ok pkts, inner) =>
        let m := { m with inner := inner.processDatagramSequence dgram.header.sequence }
        (.ok pkts, pkts.foldl (fun m pkt => m.handleControlPacket start pkt.packet now) m)
    | .ack payload => (.ok [], { m with inner := m.inner.handleAckPayload payload })
    | .nak payload => (.ok [], { m with inner := m.inner.handleNackPayload payload })

omit [Float64 F] in
def debitReliableBytes (m : ManagedSession F) (packets : List EncapsulatedPacket) : ManagedSession F :=
  let debit (bytes : Nat) (pkt : EncapsulatedPacket) : Nat :=
    if pkt.header.reliability.isReliable then bytes - pkt.size else bytes
  { m with queuedReliableBytes := packets.foldl debit m.queuedReliableBytes }

/-- Builds the next outgoing datagram, if any. -/
def buildDatagram (m : ManagedSession F) (now : Instant) : Option OutgoingDatagram × ManagedSession F :=
  match m.inner.buildDataDatagram now with
  | (none, inner) => (none, { m with inner })
  | (some dgram, inner) =>
    let m := { m with inner }
    (some dgram, match dgram.asRef.payload with
      | .encapsulatedPackets packets => m.debitReliableBytes packets
      | _ => m)

/-- The packets of a batch that are delivered to the application. -/
def filterAppPackets (pkts : List IncomingPacket) : List IncomingPacket := pkts.filter fun p => p.packet.isAppPacket

/-! ## The tick -/

omit [Float64 F] in
def shouldSendPing (m : ManagedSession F) (now : Instant) : Bool :=
  if !m.isConnected then false
  else if m.currentPingNonce.isSome then false
  else
    match m.lastPingSent with
    | some last => Instant.durationSince now last ≥ m.config.pingInterval
    | none => true

def sendConnectedPing (start : Instant) (m : ManagedSession F) (now : Instant) : ManagedSession F :=
  let timestamp := currentRaknetTime start now
  let m := m.queueControlPacket (.connectedPing ⟨timestamp⟩) .unreliable 0 .immediate
  { m with lastPingSent := some now, currentPingNonce := some timestamp }

/-- Closes the session with a disconnect notification under way. -/
def closeWith (m : ManagedSession F) (reason : DisconnectReason) : ManagedSession F :=
  { (m.sendDisconnect reason).2 with state := .closed, lastDisconnectReason := some reason }

/-- The stale and timeout transitions of a connected session. -/
def checkIdle (m : ManagedSession F) (now : Instant) : ManagedSession F :=
  if m.isConnected then
    let idle := Instant.durationSince now m.lastActivity
    if idle ≥ m.config.sessionTimeout then m.closeWith .timedOut
    else if idle ≥ m.config.sessionStale then { m with state := .stale }
    else m
  else m

def enforceQueueLimit (m : ManagedSession F) : ManagedSession F :=
  match m.config.maxQueuedReliableBytes with
  | some limit => if m.queuedReliableBytes > limit then m.closeWith .queueTooLong else m
  | none => m

/-- The part of `on_tick` before its inner session ticks: transitions, keep-alive ping, queue limit. -/
def beforeTick (start : Instant) (m : ManagedSession F) (now : Instant) : ManagedSession F :=
  let m := m.checkIdle now
  let m := if m.shouldSendPing now then m.sendConnectedPing start now else m
  m.enforceQueueLimit

/-- Runs periodic maintenance and returns the datagrams that should be sent. -/
def onTick (start : Instant) (m : ManagedSession F) (now : Instant) (iter : IterOrder SplitEntries.Item) :
    List OutgoingDatagram × ManagedSession F :=
  let m := m.beforeTick start now
  let (out, inner) := m.inner.onTick now iter
  (out, { m with inner })

/-! ## The managed session as a machine -/

/-- A call on a managed session. -/
inductive Op
  | queueAppPacket (pkt : RaknetPacket) (rel : Reliability) (channel : UInt8) (priority : RakPriority) (clock : Instant)
  | handleDatagram (dgram : Datagram) (now : Instant)
  | buildDatagram (now : Instant)
  | onTick (now : Instant) (iter : IterOrder SplitEntries.Item)
  | startClientHandshake (serverGuid : UInt64) (now : Instant) (secure : Bool)
  | sendDisconnect (reason : DisconnectReason)

def step (start : Instant) (m : ManagedSession F) : Op → ManagedSession F
  | .queueAppPacket pkt rel channel priority clock => (m.queueAppPacket pkt rel channel priority clock).2
  | .handleDatagram dgram now => (m.handleDatagram start dgram now).2
  | .buildDatagram now => (m.buildDatagram now).2
  | .onTick now iter => (m.onTick start now iter).2
  | .startClientHandshake serverGuid now secure => (m.startClientHandshake start serverGuid now secure).2
  | .sendDisconnect reason => (m.sendDisconnect reason).2

/-- The datagrams a call hands to the transport. -/
def emitted (start : Instant) (m : ManagedSession F) : Op → List OutgoingDatagram
  | .buildDatagram now => (m.buildDatagram now).1.toList
  | .onTick now iter => (m.onTick start now iter).1
  | _ => []

end ManagedSession

end BedrockRs.Raknet
