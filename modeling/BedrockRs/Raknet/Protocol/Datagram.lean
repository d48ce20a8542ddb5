/-
Frames and datagrams (`protocol/reliability.rs`, `protocol/encapsulated_packet.rs`,
`protocol/datagram.rs` and their headers): the reliabilities and their properties, an encapsulated
packet with the fields its reliability and split flag call for, and a datagram of packets or of an
ACK/NAK payload, each with its wire form and its size.
-/
import BedrockRs.Raknet.Protocol.Packet

namespace BedrockRs.Raknet

/-! ## Reliability and priority -/

inductive Reliability
  | unreliable
  | unreliableSequenced
  | reliable
  | reliableOrdered
  | reliableSequenced
  | unreliableWithAckReceipt
  | reliableWithAckReceipt
  | reliableOrderedWithAckReceipt
deriving DecidableEq, Repr

namespace Reliability

/-- The columns of `RELIABILITY_TABLE` that the session reads. -/
def isReliable : Reliability → Bool
  | reliable | reliableOrdered | reliableSequenced | reliableWithAckReceipt | reliableOrderedWithAckReceipt => true
  | unreliable | unreliableSequenced | unreliableWithAckReceipt => false

def isOrdered : Reliability → Bool
  | reliableOrdered | reliableOrderedWithAckReceipt => true
  | _ => false

def isSequenced : Reliability → Bool
  | unreliableSequenced | reliableSequenced => true
  | _ => false

def toByte : Reliability → UInt8
  | unreliable => 0
  | unreliableSequenced => 1
  | reliable => 2
  | reliableOrdered => 3
  | reliableSequenced => 4
  | unreliableWithAckReceipt => 5
  | reliableWithAckReceipt => 6
  | reliableOrderedWithAckReceipt => 7

def tryFrom (value : UInt8) : Except DecodeError Reliability :=
  match value.toNat with
  | 0 => .ok unreliable
  | 1 => .ok unreliableSequenced
  | 2 => .ok reliable
  | 3 => .ok reliableOrdered
  | 4 => .ok reliableSequenced
  | 5 => .ok unreliableWithAckReceipt
  | 6 => .ok reliableWithAckReceipt
  | 7 => .ok reliableOrderedWithAckReceipt
  | _ => .error (.unknownReliability value)

theorem isReliable_of_isOrdered {r : Reliability} (h : r.isOrdered = true) : r.isReliable = true := by
  cases r <;> simp_all [isOrdered, isReliable]

end Reliability

inductive RakPriority
  | immediate
  | high
  | normal
  | low
deriving DecidableEq, Repr

def RakPriority.asIndex : RakPriority → Nat
  | immediate => 0
  | high => 1
  | normal => 2
  | low => 3

/-! ## Encapsulated packets -/

/-- Header byte of an encapsulated packet: reliability in bits 7..5, the split flag in bit 4 and
the needs-B&AS flag in bit 2. -/
structure EncapsulatedPacketHeader where
  reliability : Reliability
  isSplit : Bool
  needsBas : Bool
deriving DecidableEq, Repr

namespace EncapsulatedPacketHeader

/-- `FRAME_FLAG_SPLIT` and `FRAME_FLAG_NEEDS_BAS`. -/
def frameFlagSplit : UInt8 := 0b00010000
def frameFlagNeedsBas : UInt8 := 0b00000100

def toByte (h : EncapsulatedPacketHeader) : UInt8 :=
  (h.reliability.toByte <<< 5) ||| (if h.isSplit then frameFlagSplit else 0) |||
    (if h.needsBas then frameFlagNeedsBas else 0)

def fromByte (b : UInt8) : Except DecodeError EncapsulatedPacketHeader := do
  let reliability ← Reliability.tryFrom (b >>> 5)
  return ⟨reliability, b &&& frameFlagSplit != 0, b &&& frameFlagNeedsBas != 0⟩

def decode : Get EncapsulatedPacketHeader := do
  let b ← Get.u8
  match fromByte b with
  | .ok header => return header
  | .error e => throw e

end EncapsulatedPacketHeader

structure SplitInfo where
  count : UInt32
  id : UInt16
  index : UInt32
deriving DecidableEq, Repr

structure EncapsulatedPacket where
  header : EncapsulatedPacketHeader
  bitLength : UInt16
  reliableIndex : Option Sequence24
  sequenceIndex : Option Sequence24
  orderingIndex : Option Sequence24
  orderingChannel : Option UInt8
  split : Option SplitInfo
  payload : Bytes
deriving DecidableEq, Repr

namespace EncapsulatedPacket

/-- Payload length in bytes, derived from the bit length. -/
def payloadLen (p : EncapsulatedPacket) : Nat := (p.bitLength.toNat + 7) >>> 3

/-- Total on-wire size (header and payload). -/
def size (p : EncapsulatedPacket) : Nat :=
  let rel := p.header.reliability
  3 + (if rel.isReliable then 3 else 0) + (if rel.isSequenced then 3 else 0) +
    (if rel.isOrdered || rel.isSequenced then 3 + 1 else 0) +
    (if p.header.isSplit then 4 + 2 + 4 else 0) + p.payloadLen

/-- A part of the frame that is written under a condition and then needs a field. -/
def encodePart {α : Type} (wanted : Bool) (field : Option α) (e : EncodeError) (put : α → Bytes) :
    Except EncodeError Bytes :=
  if wanted then
    match field with
    | some a => .ok (put a)
    | none => .error e
  else .ok []

def encode (p : EncapsulatedPacket) : Except EncodeError Bytes := do
  let rel := p.header.reliability
  let hasOrdering := rel.isOrdered || rel.isSequenced
  let reliable ← encodePart rel.isReliable p.reliableIndex .missingReliableIndex Put.sequence24
  let sequenced ← encodePart rel.isSequenced p.sequenceIndex .missingSequenceIndex Put.sequence24
  let ordering ← encodePart hasOrdering p.orderingIndex .missingOrderingIndex Put.sequence24
  let channel ← encodePart hasOrdering p.orderingChannel .missingOrderingChannel fun ch => [ch]
  let split ← encodePart p.header.isSplit p.split .missingSplitInfo fun split =>
    Put.u32 split.count ++ Put.u16 split.id ++ Put.u32 split.index
  return p.header.toByte :: Put.u16 p.bitLength ++ reliable ++ sequenced ++ ordering ++ channel ++ split ++ p.payload

/-- A part of the frame that is read under a condition. -/
def decodePart {α : Type} (wanted : Bool) (item : Get α) : Get (Option α) :=
  if wanted then some <$> item else pure none

def decode : Get EncapsulatedPacket := do
  let header ← EncapsulatedPacketHeader.decode
  let bitLength ← Get.u16
  let payloadLen := (bitLength.toNat + 7) >>> 3
  let rel := header.reliability
  let hasOrdering := rel.isOrdered || rel.isSequenced
  let reliableIndex ← decodePart rel.isReliable Get.sequence24
  let sequenceIndex ← decodePart rel.isSequenced Get.sequence24
  let orderingIndex ← decodePart hasOrdering Get.sequence24
  let orderingChannel ← decodePart hasOrdering Get.u8
  let split ← decodePart header.isSplit do return ⟨← Get.u32, ← Get.u16, ← Get.u32⟩
  let payload ← Get.bytes payloadLen
  return ⟨header, bitLength, reliableIndex, sequenceIndex, orderingIndex, orderingChannel, split, payload⟩

/-- Every field that the reliability and the split flag call for is there. -/
structure Encodable (p : EncapsulatedPacket) : Prop where
  reliable : p.header.reliability.isReliable = true → p.reliableIndex.isSome = true
  sequenced : p.header.reliability.isSequenced = true → p.sequenceIndex.isSome = true
  ordering : (p.header.reliability.isOrdered || p.header.reliability.isSequenced) = true →
    p.orderingIndex.isSome = true ∧ p.orderingChannel.isSome = true
  split : p.header.isSplit = true → p.split.isSome = true

theorem encodePart_ok {α : Type} {wanted : Bool} {field : Option α} {e : EncodeError} (put : α → Bytes)
    (h : wanted = true → field.isSome = true) : ∃ bytes, encodePart wanted field e put = .ok bytes := by
  unfold encodePart
  split
  · rename_i hw
    obtain ⟨a, rfl⟩ := Option.isSome_iff_exists.1 (h hw)
    exact ⟨_, rfl⟩
  · exact ⟨[], rfl⟩

theorem Encodable.encode_ok {p : EncapsulatedPacket} (h : p.Encodable) : ∃ bytes, p.encode = .ok bytes := by
  obtain ⟨b1, h1⟩ := encodePart_ok (e := .missingReliableIndex) Put.sequence24 h.reliable
  obtain ⟨b2, h2⟩ := encodePart_ok (e := .missingSequenceIndex) Put.sequence24 h.sequenced
  obtain ⟨b3, h3⟩ := encodePart_ok (e := .missingOrderingIndex) Put.sequence24 fun ho => (h.ordering ho).1
  obtain ⟨b4, h4⟩ := encodePart_ok (e := .missingOrderingChannel) (fun ch => [ch]) fun ho => (h.ordering ho).2
  obtain ⟨b5, h5⟩ := encodePart_ok (e := .missingSplitInfo)
    (fun split => Put.u32 split.count ++ Put.u16 split.id ++ Put.u32 split.index) h.split
  unfold encode
  simp only [h1, h2, h3, h4, h5, bind, Except.bind]
  exact ⟨_, rfl⟩

end EncapsulatedPacket

/-! ## Datagrams -/

/-- Flags for the main RakNet UDP datagram, as their bits. -/
structure DatagramFlags where
  bits : UInt8
deriving DecidableEq, Repr

namespace DatagramFlags

def valid : DatagramFlags := ⟨0b10000000⟩
def ack : DatagramFlags := ⟨0b01000000⟩
def nack : DatagramFlags := ⟨0b00100000⟩
def packetPair : DatagramFlags := ⟨0b00010000⟩
def continuousSend : DatagramFlags := ⟨0b00001000⟩
def hasBAndAs : DatagramFlags := ⟨0b00000100⟩

def or (a b : DatagramFlags) : DatagramFlags := ⟨a.bits ||| b.bits⟩

def contains (a b : DatagramFlags) : Bool := a.bits &&& b.bits == b.bits

/-- Keeps the defined bits. -/
def fromBitsTruncate (raw : UInt8) : DatagramFlags := ⟨raw &&& 0b11111100⟩

end DatagramFlags

structure DatagramHeader where
  flags : DatagramFlags
  sequence : Sequence24
deriving DecidableEq, Repr

inductive DatagramPayload
  | encapsulatedPackets (packets : List EncapsulatedPacket)
  | nak (payload : AckNackPayload)
  | ack (payload : AckNackPayload)
deriving DecidableEq, Repr

structure Datagram where
  header : DatagramHeader
  payload : DatagramPayload
deriving DecidableEq, Repr

namespace Datagram

/-- `IPV4_HEADER_SIZE`, `UDP_HEADER_SIZE` and `RAKNET_DATAGRAM_HEADER_SIZE`. -/
def ipv4HeaderSize : Nat := 20
def udpHeaderSize : Nat := 8
def raknetDatagramHeaderSize : Nat := 4

def encode (d : Datagram) : Except EncodeError Bytes :=
  match d.payload with
  | .encapsulatedPackets packets => do
    let frames ← packets.mapM EncapsulatedPacket.encode
    return d.header.flags.bits :: Put.sequence24 d.header.sequence ++ frames.flatten
  | .nak payload | .ack payload => .ok (d.header.flags.bits :: payload.encode)

/-- Frames up to the end of the buffer; a frame takes at least three bytes, so the length is
enough fuel. -/
def decodePackets : Nat → Get (List EncapsulatedPacket)
  | 0 => return []
  | fuel + 1 => do
    if (← Get.remaining) = 0 then return []
    let p ← EncapsulatedPacket.decode
    return p :: (← decodePackets fuel)

def decode : Get Datagram := do
  let rawFlags ← Get.u8
  let flags := DatagramFlags.fromBitsTruncate rawFlags
  if flags.contains .ack then
    return ⟨⟨flags, Sequence24.new 0⟩, .ack (← AckNackPayload.decode)⟩
  if flags.contains .nack then
    return ⟨⟨flags, Sequence24.new 0⟩, .nak (← AckNackPayload.decode)⟩
  let sequence ← Get.sequence24
  return ⟨⟨flags, sequence⟩, .encapsulatedPackets (← decodePackets (← Get.remaining))⟩

def size (d : Datagram) : Nat :=
  match d.payload with
  | .encapsulatedPackets packets => raknetDatagramHeaderSize + (packets.map EncapsulatedPacket.size).sum
  | .nak payload | .ack payload => 1 + payload.size

/-- Whether this is a DATA datagram. -/
def isData (d : Datagram) : Bool :=
  match d.payload with
  | .encapsulatedPackets _ => true
  | _ => false

/-- The frames of a DATA datagram. -/
def packets (d : Datagram) : List EncapsulatedPacket :=
  match d.payload with
  | .encapsulatedPackets packets => packets
  | _ => []

theorem packets_of_not_isData {d : Datagram} (h : d.isData = false) : d.packets = [] := by
  unfold isData at h
  unfold packets
  split
  · rename_i hp
    rw [hp] at h; cases h
  · rfl

theorem mapM_encode_ok : ∀ (ps : List EncapsulatedPacket), (∀ p ∈ ps, p.Encodable) →
    ∃ frames, ps.mapM EncapsulatedPacket.encode = .ok frames
  | [], _ => ⟨[], rfl⟩
  | p :: ps, h => by
    obtain ⟨b, hb⟩ := (h p (List.mem_cons_self ..)).encode_ok
    obtain ⟨bs, hbs⟩ := mapM_encode_ok ps fun q hq => h q (List.mem_cons_of_mem _ hq)
    exact ⟨b :: bs, by rw [List.mapM_cons, hb]; simp only [bind, Except.bind, hbs]; rfl⟩

/-- A datagram whose frames are all encodable is encoded without error. -/
theorem encode_ok {d : Datagram} (h : ∀ p ∈ d.packets, p.Encodable) : ∃ bytes, d.encode = .ok bytes := by
  obtain ⟨header, payload⟩ := d
  cases payload with
  | encapsulatedPackets ps =>
    obtain ⟨frames, hf⟩ := mapM_encode_ok ps h
    exact ⟨_, by simp only [encode, hf, bind, Except.bind]; rfl⟩
  | nak payload => exact ⟨_, rfl⟩
  | ack payload => exact ⟨_, rfl⟩

theorem size_pos (d : Datagram) : 0 < d.size := by
  unfold size raknetDatagramHeaderSize
  split <;> omega

end Datagram

end BedrockRs.Raknet
