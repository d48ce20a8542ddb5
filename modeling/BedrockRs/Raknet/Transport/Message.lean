/-
Application messages (`transport/mod.rs`, `RaknetStream::send`, `transport/mux.rs`): the first byte
of a message is the identifier of the packet it travels in and the rest is that packet's payload; on
the way back identifier and payload are put together again. The peer's session takes an identifier
for user data only if no built-in packet is registered under it, so those are the messages that
arrive.
-/
import BedrockRs.Raknet.Protocol.Registry
import BedrockRs.Raknet.Session.Manager

namespace BedrockRs.Raknet.Transport

open BedrockRs.Lib.Codec

/-- A message to send, with its delivery options. -/
structure Message where
  buffer : Bytes
  reliability : Reliability := .reliableOrdered
  channel : UInt8 := 0
  priority : RakPriority := .normal
deriving DecidableEq

/-- Inbound message surfaced to applications: the full user payload and metadata. -/
structure ReceivedMessage where
  buffer : Bytes
  reliability : Reliability
  channel : UInt8
deriving DecidableEq

/-- Message sent from a connection handle to the transport muxer. -/
structure OutboundMsg where
  peer : SocketAddr
  packet : RaknetPacket
  reliability : Reliability
  channel : UInt8
  priority : RakPriority
deriving DecidableEq

/-- `RaknetStream::send` on a stream to `peer`: what goes to the muxer. Empty messages are ignored. -/
def send (peer : SocketAddr) (msg : Message) : Option OutboundMsg :=
  match msg.buffer with
  | [] => none
  | id :: body => some ⟨peer, .userData id body, msg.reliability, msg.channel, msg.priority⟩

/-- The application messages in a batch of decoded packets. -/
def intoReceivedMessages (pkts : List IncomingPacket) : List ReceivedMessage :=
  pkts.filterMap fun pkt =>
    match pkt.packet with
    | .userData id payload => some ⟨id :: payload, pkt.reliability, pkt.orderingChannel.getD 0⟩
    | _ => none

/-! ## Transparency -/

variable {F : Type}

/-- What `send` queues for `msg` is encoded, and every frame that carries the bytes is decoded by the
peer's session to the one user data packet from which `msg` is rebuilt; nothing else happens there. -/
def Arrives (peer : SocketAddr) (msg : Message) (s : Session F) : Prop :=
  ∃ out bytes, send peer msg = some out ∧ out.packet.encode = .ok bytes ∧
    ∀ enc : EncapsulatedPacket, enc.payload = bytes → enc.header.reliability = msg.reliability →
      ∃ id payload, id :: payload = msg.buffer ∧
        s.decodeAndPush enc = (.ok [⟨.userData id payload, msg.reliability, enc.orderingChannel⟩], s) ∧
        intoReceivedMessages
        (ManagedSession.filterAppPackets [⟨.userData id payload, msg.reliability, enc.orderingChannel⟩]) =
          [⟨msg.buffer, msg.reliability, enc.orderingChannel.getD 0⟩]

theorem decodeAndPush_userData (s : Session F) {enc : EncapsulatedPacket} {id : UInt8} {payload : Bytes}
    (hid : RaknetPacket.IsUserId id) (h : enc.payload = id :: payload) :
    s.decodeAndPush enc = (.ok [⟨.userData id payload, enc.header.reliability, enc.orderingChannel⟩], s) := by
  unfold Session.decodeAndPush Session.decodePayload
  rw [h, RaknetPacket.decodeFrom_userData hid]

/-- Bytes under a registered identifier never decode to user data. -/
theorem decodePayload_registered {id : UInt8} {body : Get RaknetPacket} (h : RaknetPacket.decodeBody id = some body)
    (payload : Bytes) (id' : UInt8) (payload' : Bytes) :
    Session.decodePayload (id :: payload) ≠ .ok (.userData id' payload') := by
  have hc := RaknetPacket.decodeBody_isControl h
  unfold Session.decodePayload
  rw [RaknetPacket.decodeFrom_registered h]
  cases hb : body payload with
  | error e =>
    -- the arm for `UnknownId` is never taken
    have hk := hc.known payload e hb
    cases e <;> first | exact absurd rfl (hk _) | (intro hp; cases hp)
  | ok p =>
    obtain ⟨pkt, rest⟩ := p
    intro hp
    cases hp
    exact hc.kind payload rest id' payload' hb

/-- Exactly the messages whose first byte is no registered identifier arrive, as themselves. -/
theorem arrives_iff (peer : SocketAddr) (s : Session F) (msg : Message) (hne : msg.buffer ≠ []) :
    Arrives peer msg s ↔ msg.buffer.head hne ∉ registeredIds := by
  obtain ⟨buffer, rel, channel, priority⟩ := msg
  cases buffer with
  | nil => exact absurd rfl hne
  | cons id body =>
    rw [List.head_cons, ← RaknetPacket.isUserId_iff]
    constructor
    · rintro ⟨out, bytes, hout, hbytes, h⟩
      cases hout
      cases hbytes
      by_contra hid
      obtain ⟨reader, hreader⟩ := Option.ne_none_iff_exists'.1 hid
      obtain ⟨id', payload', -, hpush, -⟩ :=
        h ⟨⟨rel, false, false⟩, 0, none, none, none, none, none, id :: body⟩ rfl rfl
      have hdec := decodePayload_registered hreader body id' payload'
      unfold Session.decodeAndPush at hpush
      split at hpush
      · cases hpush
      · cases hpush
      · cases hpush
      · rename_i pkt _ _ hpkt
        cases hpush
        exact hdec hpkt
    · intro hid
      refine ⟨_, id :: body, rfl, rfl, fun enc henc hrel => ⟨id, body, rfl, ?_, rfl⟩⟩
      rw [decodeAndPush_userData s hid henc, hrel]

/-- A Bedrock game packet arrives. -/
theorem arrives_iff_game : Arrives SocketAddr.loopbackV4 ⟨[0xfe, 1, 2], .reliableOrdered, 0, .normal⟩
    (Session.new 1400 : Session ℚ) :=
  (arrives_iff _ _ ⟨[0xfe, 1, 2], .reliableOrdered, 0, .normal⟩ (by decide)).2 (by decide)

/-- A message that starts with the byte 0x15 reaches the peer as a `DisconnectionNotification`. -/
theorem not_arrives_disconnect : ¬ ∀ (peer : SocketAddr) (s : Session ℚ) (msg : Message), msg.buffer ≠ [] →
    msg.reliability.isSequenced = false → Arrives peer msg s := by
  intro h
  obtain ⟨out, bytes, hout, hbytes, h⟩ :=
    h SocketAddr.loopbackV4 (Session.new 1400) ⟨[0x15, 2], .reliableOrdered, 0, .normal⟩ (by decide) rfl
  cases hout
  cases hbytes
  obtain ⟨id, payload, -, hpush, -⟩ :=
    h ⟨⟨.reliableOrdered, false, false⟩, 16, none, none, none, none, none, [0x15, 2]⟩ rfl rfl
  have hdec : Session.decodePayload [0x15, 2] = .ok (.disconnectionNotification ⟨.disconnected⟩) := by decide
  unfold Session.decodeAndPush at hpush
  rw [hdec] at hpush
  cases hpush

end BedrockRs.Raknet.Transport
