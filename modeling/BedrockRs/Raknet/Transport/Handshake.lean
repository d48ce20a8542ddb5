/-
The client's side of the offline handshake (`perform_offline_handshake` of `transport/stream.rs`), and the
handshake as a whole: a client, a listener and the packets between them. The client is an asynchronous
function, so its state is the place where it waits. A packet that was sent stays on the network for
ever, so that it may be delivered late, out of order, many times or never.
-/
import BedrockRs.Raknet.Protocol.OpenConnection
import BedrockRs.Raknet.Transport.Listener

namespace BedrockRs.Raknet.Transport

open Lib

/-- `MTU_SIZES`: the MTUs that are probed for, in this order. -/
def mtuSizes : List UInt16 := [1200, maximumMtuSize, minimumMtuSize]

/-- `HANDSHAKE_RETRIES`: how many times the client waits for an answer to a probe. -/
def handshakeRetries : Nat := 3

/-- The size of the buffer that packets are received in; what does not fit is cut off. -/
def receiveBuffer : Nat := 2048

structure OfflineHandshake where
  mtu : UInt16
  serverGuid : UInt64
  secureConnectionEstablished : Bool
deriving DecidableEq

/-- Where `perform_offline_handshake` is: about to send a probe, waiting for an answer to it, about to send the
second request, waiting for its answer, or returned. `rest` are the MTUs still to be probed for. -/
inductive ClientHandshake
  | probing (mtu : UInt16) (rest : List UInt16)
  | awaitingReply1 (mtu : UInt16) (attempts : Nat) (rest : List UInt16)
  | requesting (reply1 : OpenConnectionReply1) (usedMtu : UInt16)
  | awaitingReply2 (mtuFinal : UInt16)
  | done (handshake : OfflineHandshake)
  | failed
deriving DecidableEq

/-- What happens to the client: a `send_to` that works or does not, a packet that comes in, or a timeout or an
error of the socket. -/
inductive ClientInput
  | send (ok : Bool)
  | receive (bytes : Bytes) (source : SocketAddr)
  | nothing

namespace ClientHandshake

/-- The first request of a probe; its padding stands for the rest of a packet of the probed size. -/
def request1 (mtu : UInt16) : RaknetPacket :=
  .openConnectionRequest1 ⟨defaultUnconnectedMagic, raknetProtocolVersion, mtu.toNat - 46⟩

/-- The MTU that the client settles on: `used_mtu.clamp(MINIMUM_MTU_SIZE, MAXIMUM_MTU_SIZE).min(server_mtu)`. -/
def mtuFinal (usedMtu serverMtu : UInt16) : UInt16 :=
  min
    (if usedMtu < minimumMtuSize then minimumMtuSize else if maximumMtuSize < usedMtu then maximumMtuSize else usedMtu)
    serverMtu

def request2 (server : SocketAddr) (clientGuid : UInt64) (reply1 : OpenConnectionReply1) (usedMtu : UInt16) :
    RaknetPacket :=
  .openConnectionRequest2 ⟨defaultUnconnectedMagic, reply1.cookie, reply1.cookie.isSome, server,
    mtuFinal usedMtu reply1.mtu, clientGuid⟩

/-- The next probe. Without one the client gives up. -/
def nextProbe : List UInt16 → ClientHandshake
  | [] => failed
  | mtu :: rest => probing mtu rest

/-- After an attempt that brought no answer. -/
def nextAttempt (mtu : UInt16) (attempts : Nat) (rest : List UInt16) : ClientHandshake :=
  if attempts + 1 < handshakeRetries then awaitingReply1 mtu (attempts + 1) rest else nextProbe rest

/-- What the client does with an input, and the packet that it sends, if it sends one. -/
def step (server : SocketAddr) (clientGuid : UInt64) : ClientHandshake → ClientInput → Option Bytes × ClientHandshake
  | probing mtu rest, .send ok =>
    match (request1 mtu).encode with
    | .ok buf => if ok then (some buf, awaitingReply1 mtu 0 rest) else (none, nextProbe rest)
    | .error _ => (none, nextProbe rest)
  | awaitingReply1 mtu attempts rest, .receive bytes source =>
    if source = server then
      match RaknetPacket.decodeFrom (bytes.take receiveBuffer) with
      | .ok (.openConnectionReply1 reply1) => (none, requesting reply1 mtu)
      | _ => (none, nextAttempt mtu attempts rest)
    else (none, nextAttempt mtu attempts rest)
  | awaitingReply1 mtu attempts rest, .nothing => (none, nextAttempt mtu attempts rest)
  | requesting reply1 usedMtu, .send ok =>
    match (request2 server clientGuid reply1 usedMtu).encode with
    | .ok buf => if ok then (some buf, awaitingReply2 (mtuFinal usedMtu reply1.mtu)) else (none, failed)
    | .error _ => (none, failed)
  | awaitingReply2 mtu, .receive bytes source =>
    if source = server then
      match RaknetPacket.decodeFrom (bytes.take receiveBuffer) with
      | .ok (.openConnectionReply2 reply2) => (none, done ⟨mtu, reply2.serverGuid, reply2.security⟩)
      | _ => (none, awaitingReply2 mtu)
    else (none, awaitingReply2 mtu)
  | awaitingReply2 _, .nothing => (none, failed)
  -- the other inputs do not meet the client there
  | state, _ => (none, state)

end ClientHandshake

/-! ## Client, listener and network -/

/-- What is fixed: the listener's host, the client's address as the listener sees it, the server's address as
the client sees it, and the client's GUID. -/
structure Parties where
  host : Host
  peer : SocketAddr
  server : SocketAddr
  clientGuid : UInt64

/-- The two parties and every packet that was sent from one to the other. -/
structure Network (F : Type) where
  listener : Listener F
  client : ClientHandshake
  toServer : List Bytes
  toClient : List Bytes

/-- The packets of an output that are sent to an address. -/
def packetsTo (peer : SocketAddr) (out : List Output) : List Bytes :=
  out.filterMap fun o =>
    match o with
    | .sendTo bytes p => if p = peer then some bytes else none
    | _ => none

namespace Network

variable {F : Type} [Float64 F] (parties : Parties)

/-- An event of the handshake. The network delivers what was sent, any number of times and in any order; other
senders may write to the client from other addresses, and the listener has other events to handle,
which do not concern the client's address. -/
inductive Action (F : Type)
  | clientSends (ok : Bool)
  | clientWaits
  | clientReceives (bytes : Bytes)
  | clientDisturbed (bytes : Bytes) (source : SocketAddr)
  | serverReceives (env : Env) (bytes : Bytes)
  | serverHandles (e : Listener.Event F)

omit [Float64 F] in
/-- The client takes an input. -/
def clientStep (net : Network F) (input : ClientInput) : Network F :=
  let (sent, client) := net.client.step parties.server parties.clientGuid input
  { net with client, toServer := net.toServer ++ sent.toList }

/-- The listener handles an event; what it sends to the client goes on the network. -/
def serverStep (net : Network F) (e : Listener.Event F) : Option (Network F) := do
  let (out, listener) ← net.listener.step parties.host e
  return { net with listener, toClient := net.toClient ++ packetsTo parties.peer out }

instance (p : SocketAddr) (e : Listener.Event F) : Decidable (e.concerns p) :=
  match e with
  | .datagram _ _ peer => inferInstanceAs (Decidable (peer = p))
  | .outbound _ msg => inferInstanceAs (Decidable (msg.peer = p))
  | .tick .. => inferInstanceAs (Decidable False)

/-- What an action does; there is no step with a packet that was not sent, or when the listener panics. -/
def next (net : Network F) : Action F → Option (Network F)
  | .clientSends ok => some (net.clientStep parties (.send ok))
  | .clientWaits => some (net.clientStep parties .nothing)
  | .clientReceives bytes =>
    if bytes ∈ net.toClient then some (net.clientStep parties (.receive bytes parties.server)) else none
  | .clientDisturbed bytes source =>
    if source ≠ parties.server then some (net.clientStep parties (.receive bytes source)) else none
  | .serverReceives env bytes =>
    if bytes ∈ net.toServer then net.serverStep parties (.datagram env bytes parties.peer) else none
  | .serverHandles e => if e.concerns parties.peer then none else net.serverStep parties e

omit [Float64 F] in
/-- A client that has just begun, at a listener. -/
def start (l : Listener F) : Network F := ⟨l, .nextProbe mtuSizes, [], []⟩

/-- The network after some actions, if all of them were possible. -/
def after (l : Listener F) (actions : List (Action F)) : Option (Network F) :=
  Machine.run (Machine.advance (next parties)) (some (start l)) actions

omit [Float64 F] in
/-- The cookie that the listener draws for the client at an action: at every first request of its version. -/
def drawn : Action F → Option UInt32
  | .serverReceives env bytes =>
    match RaknetPacket.decodeFrom bytes with
    | .ok (.openConnectionRequest1 req) =>
      if req.protocolVersion = raknetProtocolVersion then some (parties.host.generateCookie env parties.peer) else none
    | _ => none
  | _ => none

end Network

end BedrockRs.Raknet.Transport
