/-
The RakNet packets (`protocol/packet`): the bodies with their wire forms, and `RaknetPacket`, the
sum of the 25 registered packets and of `UserData`, whose identifier is any byte that no registered
packet owns. A body is written with `encode` and read with `decode`; `RaknetPacket.encode` and
`RaknetPacket.decode` add and dispatch on the identifier byte.
-/
import BedrockRs.Raknet.Protocol.Ack

namespace BedrockRs.Raknet

/-- Reason codes sent with certain disconnect and control packets. -/
inductive DisconnectReason
  | closedByRemotePeer
  | shuttingDown
  | disconnected
  | timedOut
  | connectionRequestFailed
  | alreadyConnected
  | noFreeIncomingConnections
  | incompatibleProtocolVersion
  | ipRecentlyConnected
  | badPacket
  | queueTooLong
deriving DecidableEq, Repr

namespace DisconnectReason

def toByte : DisconnectReason → UInt8
  | closedByRemotePeer => 0
  | shuttingDown => 1
  | disconnected => 2
  | timedOut => 3
  | connectionRequestFailed => 4
  | alreadyConnected => 5
  | noFreeIncomingConnections => 6
  | incompatibleProtocolVersion => 7
  | ipRecentlyConnected => 8
  | badPacket => 9
  | queueTooLong => 10

def decode : Get DisconnectReason := do
  let v ← Get.u8
  match v.toNat with
  | 0 => return closedByRemotePeer
  | 1 => return shuttingDown
  | 2 => return disconnected
  | 3 => return timedOut
  | 4 => return connectionRequestFailed
  | 5 => return alreadyConnected
  | 6 => return noFreeIncomingConnections
  | 7 => return incompatibleProtocolVersion
  | 8 => return ipRecentlyConnected
  | 9 => return badPacket
  | 10 => return queueTooLong
  | _ => throw (.unknownDisconnectReason v)

end DisconnectReason

/-! ## Online packets -/

structure ConnectedPing where
  pingTime : RaknetTime
deriving DecidableEq

def ConnectedPing.encode (p : ConnectedPing) : Bytes := Put.u64 p.pingTime
def ConnectedPing.decode : Get ConnectedPing := do return ⟨← Get.u64⟩

structure ConnectedPong where
  pingTime : RaknetTime
  pongTime : RaknetTime
deriving DecidableEq

def ConnectedPong.encode (p : ConnectedPong) : Bytes := Put.u64 p.pingTime ++ Put.u64 p.pongTime
def ConnectedPong.decode : Get ConnectedPong := do return ⟨← Get.u64, ← Get.u64⟩

structure DisconnectionNotification where
  reason : DisconnectReason
deriving DecidableEq

def DisconnectionNotification.encode (p : DisconnectionNotification) : Bytes := [p.reason.toByte]

/-- An absent reason byte reads as `ClosedByRemotePeer`. -/
def DisconnectionNotification.decode : Get DisconnectionNotification := do
  if (← Get.remaining) = 0 then return ⟨.closedByRemotePeer⟩
  return ⟨← DisconnectReason.decode⟩

/-- The legacy packets `ConnectionLost`, `ConnectionBanned` and `Timestamp`: written verbatim, never
read back. -/
structure LegacyPayload where
  payload : Bytes
deriving DecidableEq

def LegacyPayload.decode (id : UInt8) : Get LegacyPayload := do
  throw (.unimplementedPacket id (← Get.rest))

abbrev ConnectionLost := LegacyPayload
abbrev ConnectionBanned := LegacyPayload
abbrev Timestamp := LegacyPayload

/-! ## Offline packets -/

/-- The body shared by `UnconnectedPing` and `UnconnectedPingOpenConnections`. -/
structure UnconnectedPing where
  pingTime : RaknetTime
  magic : Magic
deriving DecidableEq

def UnconnectedPing.encode (p : UnconnectedPing) : Bytes := Put.u64 p.pingTime ++ p.magic.toList
def UnconnectedPing.decode : Get UnconnectedPing := do return ⟨← Get.u64, ← Get.defaultMagic⟩

abbrev UnconnectedPingOpenConnections := UnconnectedPing

/-- The body shared by `UnconnectedPong` and `AdvertiseSystem`. -/
structure UnconnectedPong where
  pingTime : RaknetTime
  serverGuid : UInt64
  magic : Magic
  advertisement : Advertisement
deriving DecidableEq

def UnconnectedPong.encode (p : UnconnectedPong) : Bytes :=
  Put.u64 p.pingTime ++ Put.u64 p.serverGuid ++ p.magic.toList ++ Put.advertisement p.advertisement

def UnconnectedPong.decode : Get UnconnectedPong := do
  return ⟨← Get.u64, ← Get.u64, ← Get.defaultMagic, ← Get.advertisement⟩

abbrev AdvertiseSystem := UnconnectedPong

structure OpenConnectionRequest1 where
  magic : Magic
  protocolVersion : UInt8
  padding : EoBPadding
deriving DecidableEq

def OpenConnectionRequest1.encode (p : OpenConnectionRequest1) : Bytes :=
  p.magic.toList ++ [p.protocolVersion] ++ Put.eobPadding p.padding

def OpenConnectionRequest1.decode : Get OpenConnectionRequest1 := do
  return ⟨← Get.defaultMagic, ← Get.u8, ← Get.eobPadding⟩

structure OpenConnectionReply1 where
  magic : Magic
  serverGuid : UInt64
  cookie : Option UInt32
  mtu : UInt16
deriving DecidableEq

def OpenConnectionReply1.encode (p : OpenConnectionReply1) : Bytes :=
  p.magic.toList ++ Put.u64 p.serverGuid ++ Put.bool p.cookie.isSome ++
    (match p.cookie with
    | some item => Put.u32 item
    | none => []) ++ Put.u16 p.mtu

def OpenConnectionReply1.decode : Get OpenConnectionReply1 := do
  let magic ← Get.defaultMagic
  let serverGuid ← Get.u64
  let cookie ← if ← Get.bool then some <$> Get.u32 else pure none
  return ⟨magic, serverGuid, cookie, ← Get.u16⟩

structure OpenConnectionRequest2 where
  magic : Magic
  cookie : Option UInt32
  clientProof : Bool
  serverAddr : SocketAddr
  mtu : UInt16
  clientGuid : UInt64
deriving DecidableEq

def OpenConnectionRequest2.encode (p : OpenConnectionRequest2) : Bytes :=
  p.magic.toList ++
    (match p.cookie with
    | some cookie => Put.u32 cookie ++ Put.bool p.clientProof
    | none => []) ++ p.serverAddr.encode ++ Put.u16 p.mtu ++ Put.u64 p.clientGuid

/-- A body whose first byte after the magic is an address version has no cookie; otherwise four
cookie bytes and one skipped byte come first. -/
def OpenConnectionRequest2.decode : Get OpenConnectionRequest2 := do
  let magic ← Get.defaultMagic
  let cookie ← fun (src : Bytes) => match src with
    | [] => .error .unexpectedEof
    | first :: _ =>
      if first ≠ 4 ∧ first ≠ 6 then (do
        let cookie ← Get.u32
        let after ← get
        set after.tail
        return some cookie : Get (Option UInt32)) src
      else .ok (none, src)
  return ⟨magic, cookie, false, ← SocketAddr.decode, ← Get.u16, ← Get.u64⟩

structure OpenConnectionReply2 where
  magic : Magic
  serverGuid : UInt64
  serverAddr : SocketAddr
  mtu : UInt16
  security : Bool
deriving DecidableEq

def OpenConnectionReply2.encode (p : OpenConnectionReply2) : Bytes :=
  p.magic.toList ++ Put.u64 p.serverGuid ++ p.serverAddr.encode ++ Put.u16 p.mtu ++ Put.bool p.security

def OpenConnectionReply2.decode : Get OpenConnectionReply2 := do
  return ⟨← Get.defaultMagic, ← Get.u64, ← SocketAddr.decode, ← Get.u16, ← Get.bool⟩

structure IncompatibleProtocolVersion where
  protocol : UInt8
  magic : Magic
  serverGuid : UInt64
deriving DecidableEq

def IncompatibleProtocolVersion.encode (p : IncompatibleProtocolVersion) : Bytes :=
  [p.protocol] ++ p.magic.toList ++ Put.u64 p.serverGuid

def IncompatibleProtocolVersion.decode : Get IncompatibleProtocolVersion := do
  return ⟨← Get.u8, ← Get.defaultMagic, ← Get.u64⟩

/-- The body shared by `AlreadyConnected` and `ConnectionRequestFailed`. -/
structure MagicGuid where
  magic : Magic
  serverGuid : UInt64
deriving DecidableEq

def MagicGuid.encode (p : MagicGuid) : Bytes := p.magic.toList ++ Put.u64 p.serverGuid
def MagicGuid.decode : Get MagicGuid := do return ⟨← Get.defaultMagic, ← Get.u64⟩

abbrev AlreadyConnected := MagicGuid
abbrev ConnectionRequestFailed := MagicGuid

/-! ## Online handshake packets -/

structure ConnectionRequest where
  clientGuid : UInt64
  timestamp : RaknetTime
  secure : Bool
deriving DecidableEq

def ConnectionRequest.encode (p : ConnectionRequest) : Bytes :=
  Put.u64 p.clientGuid ++ Put.u64 p.timestamp ++ Put.bool p.secure

def ConnectionRequest.decode : Get ConnectionRequest := do return ⟨← Get.u64, ← Get.u64, ← Get.bool⟩

structure ConnectionRequestAccepted where
  address : SocketAddr
  systemIndex : UInt16
  systemAddresses : List.Vector SocketAddr 10
  requestTimestamp : RaknetTime
  acceptedTimestamp : RaknetTime
deriving DecidableEq

def ConnectionRequestAccepted.encode (p : ConnectionRequestAccepted) : Bytes :=
  p.address.encode ++ Put.u16 p.systemIndex ++ p.systemAddresses.toList.flatMap SocketAddr.encode ++
    Put.u64 p.requestTimestamp ++ Put.u64 p.acceptedTimestamp

def ConnectionRequestAccepted.decode : Get ConnectionRequestAccepted := do
  return ⟨← SocketAddr.decode, ← Get.u16, ← Get.vector SocketAddr.decode 10, ← Get.u64, ← Get.u64⟩

structure NewIncomingConnection where
  serverAddress : SocketAddr
  systemAddresses : List.Vector SocketAddr 10
  requestTimestamp : RaknetTime
  acceptedTimestamp : RaknetTime
deriving DecidableEq

def NewIncomingConnection.encode (p : NewIncomingConnection) : Bytes :=
  p.serverAddress.encode ++ p.systemAddresses.toList.flatMap SocketAddr.encode ++
    Put.u64 p.requestTimestamp ++ Put.u64 p.acceptedTimestamp

def NewIncomingConnection.decode : Get NewIncomingConnection := do
  return ⟨← SocketAddr.decode, ← Get.vector SocketAddr.decode 10, ← Get.u64, ← Get.u64⟩

/-! ## The registry -/

/-- The built-in RakNet control packets, and user data under any other identifier. -/
inductive RaknetPacket
  | connectedPing (body : ConnectedPing)
  | connectedPong (body : ConnectedPong)
  | unconnectedPing (body : UnconnectedPing)
  | unconnectedPong (body : UnconnectedPong)
  | unconnectedPingOpenConnections (body : UnconnectedPingOpenConnections)
  | openConnectionRequest1 (body : OpenConnectionRequest1)
  | openConnectionReply1 (body : OpenConnectionReply1)
  | openConnectionRequest2 (body : OpenConnectionRequest2)
  | openConnectionReply2 (body : OpenConnectionReply2)
  | connectionRequest (body : ConnectionRequest)
  | connectionRequestAccepted (body : ConnectionRequestAccepted)
  | connectionRequestFailed (body : ConnectionRequestFailed)
  | alreadyConnected (body : AlreadyConnected)
  | newIncomingConnection (body : NewIncomingConnection)
  | detectLostConnection
  | noFreeIncomingConnections
  | disconnectionNotification (body : DisconnectionNotification)
  | connectionLost (body : ConnectionLost)
  | connectionBanned (body : ConnectionBanned)
  | incompatibleProtocolVersion (body : IncompatibleProtocolVersion)
  | ipRecentlyConnected
  | timestamp (body : Timestamp)
  | advertiseSystem (body : AdvertiseSystem)
  | encapsulatedNak (body : AckNackPayload)
  | encapsulatedAck (body : AckNackPayload)
  | userData (id : UInt8) (payload : Bytes)
deriving DecidableEq

namespace RaknetPacket

/-- The wire identifier of a packet. -/
def id : RaknetPacket → UInt8
  | connectedPing _ => 0x00
  | connectedPong _ => 0x03
  | unconnectedPing _ => 0x01
  | unconnectedPong _ => 0x1c
  | unconnectedPingOpenConnections _ => 0x02
  | openConnectionRequest1 _ => 0x05
  | openConnectionReply1 _ => 0x06
  | openConnectionRequest2 _ => 0x07
  | openConnectionReply2 _ => 0x08
  | connectionRequest _ => 0x09
  | connectionRequestAccepted _ => 0x10
  | connectionRequestFailed _ => 0x11
  | alreadyConnected _ => 0x12
  | newIncomingConnection _ => 0x13
  | detectLostConnection => 0x04
  | noFreeIncomingConnections => 0x14
  | disconnectionNotification _ => 0x15
  | connectionLost _ => 0x16
  | connectionBanned _ => 0x17
  | incompatibleProtocolVersion _ => 0x19
  | ipRecentlyConnected => 0x1a
  | timestamp _ => 0x1b
  | advertiseSystem _ => 0x1d
  | encapsulatedNak _ => 0xa0
  | encapsulatedAck _ => 0xc0
  | userData id _ => id

def encodeBody : RaknetPacket → Bytes
  | connectedPing body => body.encode
  | connectedPong body => body.encode
  | unconnectedPing body => body.encode
  | unconnectedPong body => body.encode
  | unconnectedPingOpenConnections body => body.encode
  | openConnectionRequest1 body => body.encode
  | openConnectionReply1 body => body.encode
  | openConnectionRequest2 body => body.encode
  | openConnectionReply2 body => body.encode
  | connectionRequest body => body.encode
  | connectionRequestAccepted body => body.encode
  | connectionRequestFailed body => body.encode
  | alreadyConnected body => body.encode
  | newIncomingConnection body => body.encode
  | detectLostConnection => []
  | noFreeIncomingConnections => []
  | disconnectionNotification body => body.encode
  | connectionLost body => body.payload
  | connectionBanned body => body.payload
  | incompatibleProtocolVersion body => body.encode
  | ipRecentlyConnected => []
  | timestamp body => body.payload
  | advertiseSystem body => body.encode
  | encapsulatedNak body => body.encode
  | encapsulatedAck body => body.encode
  | userData _ payload => payload

/-- Identifier byte and body. No registered body has a failing encoder. -/
def encode (p : RaknetPacket) : Except EncodeError Bytes := .ok (p.id :: p.encodeBody)

/-- The body decoder registered under an identifier, `none` for user data. -/
def decodeBody (id : UInt8) : Option (Get RaknetPacket) :=
  match id.toNat with
  | 0x00 => some (connectedPing <$> ConnectedPing.decode)
  | 0x03 => some (connectedPong <$> ConnectedPong.decode)
  | 0x01 => some (unconnectedPing <$> UnconnectedPing.decode)
  | 0x1c => some (unconnectedPong <$> UnconnectedPong.decode)
  | 0x02 => some (unconnectedPingOpenConnections <$> UnconnectedPing.decode)
  | 0x05 => some (openConnectionRequest1 <$> OpenConnectionRequest1.decode)
  | 0x06 => some (openConnectionReply1 <$> OpenConnectionReply1.decode)
  | 0x07 => some (openConnectionRequest2 <$> OpenConnectionRequest2.decode)
  | 0x08 => some (openConnectionReply2 <$> OpenConnectionReply2.decode)
  | 0x09 => some (connectionRequest <$> ConnectionRequest.decode)
  | 0x10 => some (connectionRequestAccepted <$> ConnectionRequestAccepted.decode)
  | 0x11 => some (connectionRequestFailed <$> MagicGuid.decode)
  | 0x12 => some (alreadyConnected <$> MagicGuid.decode)
  | 0x13 => some (newIncomingConnection <$> NewIncomingConnection.decode)
  | 0x04 => some (pure detectLostConnection)
  | 0x14 => some (pure noFreeIncomingConnections)
  | 0x15 => some (disconnectionNotification <$> DisconnectionNotification.decode)
  | 0x16 => some (connectionLost <$> LegacyPayload.decode id)
  | 0x17 => some (connectionBanned <$> LegacyPayload.decode id)
  | 0x19 => some (incompatibleProtocolVersion <$> IncompatibleProtocolVersion.decode)
  | 0x1a => some (pure ipRecentlyConnected)
  | 0x1b => some (timestamp <$> LegacyPayload.decode id)
  | 0x1d => some (advertiseSystem <$> UnconnectedPong.decode)
  | 0xa0 => some (encapsulatedNak <$> AckNackPayload.decode)
  | 0xc0 => some (encapsulatedAck <$> AckNackPayload.decode)
  | _ => none

/-- Decodes a single packet (identifier byte and body) from the buffer. -/
def decode : Get RaknetPacket := do
  let id ← Get.u8
  match decodeBody id with
  | some body => body
  | none => return userData id (← Get.rest)

/-- The packet at the front of a buffer; what follows it is not looked at. -/
def decodeFrom (src : Bytes) : Except DecodeError RaknetPacket := (decode.run src).map Prod.fst

/-- An identifier no registered packet owns: its packets decode as user data. -/
def IsUserId (id : UInt8) : Prop := decodeBody id = none

instance (id : UInt8) : Decidable (IsUserId id) :=
  decidable_of_iff ((decodeBody id).isNone = true) Option.isNone_iff_eq_none

theorem decodeFrom_userData {id : UInt8} (h : IsUserId id) (payload : Bytes) :
    decodeFrom (id :: payload) = .ok (userData id payload) := by
  unfold decodeFrom decode
  simp only [StateT.run, bind, StateT.bind, Get.u8, Except.bind]
  rw [show decodeBody id = none from h]
  rfl

theorem decodeFrom_registered {id : UInt8} {body : Get RaknetPacket} (h : decodeBody id = some body) (payload : Bytes) :
    decodeFrom (id :: payload) = (body payload).map Prod.fst := by
  unfold decodeFrom decode
  simp only [StateT.run, bind, StateT.bind, Get.u8, Except.bind, h]

end RaknetPacket

end BedrockRs.Raknet
