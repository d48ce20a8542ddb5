/-
The sending half of a session (`session/outbound.rs`): queueing a packet whole or in fragments,
filling datagrams from the priority heap, tracking them for retransmission, and the ACK, NAK and
resend datagrams of a tick.
-/
import BedrockRs.Raknet.Session.State
import Mathlib.Data.List.Sort

namespace BedrockRs.Raknet.Session

open Lib

variable {F : Type} [Float64 F]

/-! ## Header sizes -/

/-- The header overhead (flags, indexes, split metadata) of an encapsulated packet. -/
def encapsulatedHeaderOverhead (reliability : Reliability) (isSplit : Bool) : Nat :=
  3 + (if reliability.isReliable then 3 else 0) + (if reliability.isSequenced then 3 else 0) +
    (if reliability.isOrdered || reliability.isSequenced then 3 + 1 else 0) +
    (if isSplit then 4 + 2 + 4 else 0)

/-- Maximum payload size for an encapsulated packet at the session's MTU. -/
def maxEncapsulatedPayloadLen (s : Session F) (reliability : Reliability) (isSplit : Bool) : Nat :=
  s.mtu - (encapsulatedHeaderOverhead reliability isSplit + Datagram.ipv4HeaderSize + Datagram.udpHeaderSize +
    Datagram.raknetDatagramHeaderSize)

/-! ## Queueing -/

def nextReliableIndex (s : Session F) : Sequence24 × Session F :=
  (s.reliabilityWriteIndex, { s with reliabilityWriteIndex := s.reliabilityWriteIndex.next })

/-- The reliable index of a packet, allocated when its reliability asks for one. -/
def allocReliableIndex (s : Session F) (reliability : Reliability) : Option Sequence24 × Session F :=
  if reliability.isReliable then
    let (idx, s) := s.nextReliableIndex
    (some idx, s)
  else (none, s)

/-- The ordering index of a packet, allocated when its reliability asks for one. -/
def allocOrderingIndex (s : Session F) (reliability : Reliability) (channel : UInt8) :
    Option Sequence24 × Session F :=
  if reliability.isOrdered then
    let (idx, ordering) := s.ordering.nextOrderIndex channel
    (idx, { s with ordering })
  else (none, s)

/-- The weight for the next packet of a priority. The last subtraction is the `u64` one of the
source. -/
def getNextWeight (s : Session F) (priority : RakPriority) : Nat × Session F :=
  let level := priority.asIndex
  let next := s.outgoingPacketNextWeights priority
  let (next, weights) :=
    if !s.outgoingHeap.isEmpty then
      if next ≥ s.lastMinWeight then
        let next := s.lastMinWeight + (1 <<< level) * level + level
        (next, Function.update s.outgoingPacketNextWeights priority
          (next + (1 <<< level) * (level + 1) + level))
      else (next, s.outgoingPacketNextWeights)
    else (next, initialWeight)
  (next, { s with
    outgoingPacketNextWeights := weights
    lastMinWeight := next - (1 <<< level) * level + level })

def pushOutgoingEncap (s : Session F) (pkt : EncapsulatedPacket) (priority : RakPriority) : Session F :=
  let (weight, s) := s.getNextWeight priority
  { s with outgoingHeap := s.outgoingHeap.push QueuedEncap.le ⟨weight, pkt⟩ }

/-- The frame of a packet that is sent whole. -/
def singleEncap (payload : Bytes) (reliability : Reliability) (channel : UInt8)
    (reliableIndex orderingIndex : Option Sequence24) : EncapsulatedPacket where
  header := ⟨reliability, false, false⟩
  bitLength := UInt16.ofNat payload.length <<< 3
  reliableIndex := reliableIndex
  sequenceIndex := none
  orderingIndex := orderingIndex
  orderingChannel := orderingIndex.map fun _ => channel
  split := none
  payload := payload

def enqueueSingleEncap (s : Session F) (payload : Bytes) (reliability : Reliability) (channel : UInt8)
    (priority : RakPriority) : Nat × Session F :=
  let (orderingIndex, s) := s.allocOrderingIndex reliability channel
  let (reliableIndex, s) := s.allocReliableIndex reliability
  let encapsulated := singleEncap payload reliability channel reliableIndex orderingIndex
  let s := s.pushOutgoingEncap encapsulated priority
  (if reliability.isReliable then encapsulated.size else 0, s)

def normalizeReliabilityForSplit : Reliability → Reliability
  | .unreliable => .reliable
  | .unreliableSequenced => .reliableSequenced
  | .unreliableWithAckReceipt => .reliableWithAckReceipt
  | other => other

/-- The first `parts` pieces of at most `maxLen` bytes. -/
def chunks (maxLen : Nat) : Nat → Bytes → List Bytes
  | 0, _ => []
  | parts + 1, payload => payload.take maxLen :: chunks maxLen parts (payload.drop maxLen)

/-- The frame of one fragment. -/
def fragmentEncap (chunk : Bytes) (reliability : Reliability) (channel : UInt8)
    (reliableIndex orderingIndex : Option Sequence24) (split : SplitInfo) : EncapsulatedPacket where
  header := ⟨reliability, true, false⟩
  bitLength := UInt16.ofNat chunk.length <<< 3
  reliableIndex := reliableIndex
  sequenceIndex := none
  orderingIndex := orderingIndex
  orderingChannel := orderingIndex.map fun _ => channel
  split := some split
  payload := chunk

/-- The loop over the chunks, from index `i` on: each fragment takes the next reliable index. -/
def enqueueFragments (reliability : Reliability) (channel : UInt8) (orderingIndex : Option Sequence24)
    (splitId : UInt16) (parts : Nat) (priority : RakPriority) :
    Nat → List Bytes → Nat → Session F → Nat × Session F
  | _, [], bytes, s => (bytes, s)
  | i, chunk :: rest, bytes, s =>
    let (reliableIndex, s) := s.allocReliableIndex reliability
    let encapsulated := fragmentEncap chunk reliability channel reliableIndex orderingIndex
      ⟨UInt32.ofNat parts, splitId, UInt32.ofNat i⟩
    let s := s.pushOutgoingEncap encapsulated priority
    let bytes := if reliability.isReliable then bytes + encapsulated.size else bytes
    enqueueFragments reliability channel orderingIndex splitId parts priority (i + 1) rest bytes s

def enqueueFragmentedEncaps (s : Session F) (payload : Bytes) (reliability : Reliability) (channel : UInt8)
    (priority : RakPriority) : Nat × Session F :=
  let reliability := normalizeReliabilityForSplit reliability
  let maxLen := max (s.maxEncapsulatedPayloadLen reliability true) 1
  let parts := (payload.length - 1) / maxLen + 1
  let pieces := chunks maxLen parts payload
  let splitId := s.splitIndex
  let s := { s with splitIndex := s.splitIndex + 1 }
  let (orderingIndex, s) := s.allocOrderingIndex reliability channel
  enqueueFragments reliability channel orderingIndex splitId parts priority 0 pieces 0 s

/-- Queues a packet and returns the number of reliable bytes it added. -/
def queuePacket (s : Session F) (pkt : RaknetPacket) (reliability : Reliability) (channel : UInt8)
    (priority : RakPriority) : Nat × Session F :=
  if channel.toNat ≥ s.ordering.maxChannels then (0, s)
  else
    match pkt.encode with
    | .error _ => (0, s)
    | .ok payload =>
      let maxLen := max (s.maxEncapsulatedPayloadLen reliability false) 1
      if payload.length ≤ maxLen then s.enqueueSingleEncap payload reliability channel priority
      else s.enqueueFragmentedEncaps payload reliability channel priority

/-! ## Building datagrams -/

/-- The loop of `fill_datagram`: pops packets while they fit the transmission bandwidth and the
MTU. Every round pops, so the heap's length is enough fuel. -/
def fillDatagram (mtu : Nat) : Nat → BinaryHeap QueuedEncap → Nat → Nat →
    List EncapsulatedPacket × BinaryHeap QueuedEncap
  | 0, heap, _, _ => ([], heap)
  | fuel + 1, heap, currentSize, transmissionBw =>
    match heap.peek with
    | none => ([], heap)
    | some top =>
      if transmissionBw < top.pkt.size then ([], heap)
      else if currentSize + top.pkt.size > mtu then ([], heap)
      else
        match heap.pop QueuedEncap.le with
        | none => ([], heap)
        | some (queued, heap) =>
          let (packets, heap) :=
            fillDatagram mtu fuel heap (currentSize + top.pkt.size) (transmissionBw - top.pkt.size)
          (queued.pkt :: packets, heap)

/-- The slots with `tracked` at offset `dist`, grown with empty slots as needed. -/
def setTracked (slots : List (Option TrackedDatagram)) (dist : Nat) (tracked : TrackedDatagram) :
    List (Option TrackedDatagram) :=
  (slots ++ List.replicate (dist + 1 - slots.length) none).set dist (some tracked)

/-- Tracks a sent datagram for retransmission. -/
def trackSentDatagram (s : Session F) (dgram : Datagram) (seq : Sequence24) (now : Instant) :
    OutgoingDatagram × Session F :=
  let rto := s.sliding.getRtoForRetransmission
  let tracked : TrackedDatagram := ⟨dgram, now, now + rto⟩
  let sliding := if dgram.isData then s.sliding.onReliableSend dgram else s.sliding
  (.shared dgram, { s with
    sliding
    sentDatagrams := setTracked s.sentDatagrams (s.sentDatagramsBase.distanceTo seq) tracked })

/-- The next DATA datagram to send, if any, within the MTU and the sliding window. -/
def buildDataDatagram (s : Session F) (now : Instant) : Option OutgoingDatagram × Session F :=
  if s.outgoingHeap.isEmpty then (none, s)
  else
    let transmissionBw := s.sliding.getTransmissionBandwidth
    if transmissionBw = 0 then (none, s)
    else
      let (packets, heap) := fillDatagram s.mtu s.outgoingHeap.len s.outgoingHeap
        (Datagram.ipv4HeaderSize + Datagram.udpHeaderSize + Datagram.raknetDatagramHeaderSize) transmissionBw
      let s := { s with outgoingHeap := heap }
      if packets.isEmpty then (none, s)
      else
        let seq := s.datagramWriteIndex
        let s := { s with datagramWriteIndex := s.datagramWriteIndex.next }
        let hasReliable := packets.any fun p => p.header.reliability.isReliable
        let hasSplit := packets.any fun p => p.header.isSplit
        let flags := if !s.outgoingHeap.isEmpty || hasSplit then
            DatagramFlags.valid.or .continuousSend
          else DatagramFlags.valid.or .hasBAndAs
        let dgram : Datagram := ⟨⟨flags, seq⟩, .encapsulatedPackets packets⟩
        if hasReliable then
          let (out, s) := s.trackSentDatagram dgram seq now
          (some out, s)
        else (some (.owned dgram), s)

/-! ## ACK, NAK and resend datagrams -/

/-- `ranges.sort_by_key(|r| r.start.value())`, a stable sort. -/
def sortRanges (ranges : List SequenceRange) : List SequenceRange :=
  ranges.insertionSort fun a b => a.start.value ≤ b.start.value

/-- The byte count an ACK or NAK datagram starts from. -/
def ackOverhead : Nat := Datagram.ipv4HeaderSize + Datagram.udpHeaderSize + 2 + 1

def buildAckDatagram (s : Session F) : Option OutgoingDatagram × Session F :=
  let (ranges, queue) := s.outgoingAcks.popForMtu s.mtu ackOverhead
  let s := { s with outgoingAcks := queue }
  if ranges.isEmpty then (none, s)
  else
    (some (.owned ⟨⟨DatagramFlags.valid.or .ack, Sequence24.new 0⟩, .ack ⟨sortRanges ranges⟩⟩), s)

def buildNakDatagram (s : Session F) : Option OutgoingDatagram × Session F :=
  let (ranges, queue) := s.outgoingNaks.popForMtu s.mtu ackOverhead
  let s := { s with outgoingNaks := queue }
  if ranges.isEmpty then (none, s)
  else
    (some (.owned ⟨⟨DatagramFlags.valid.or .nack, Sequence24.new 0⟩, .nak ⟨sortRanges ranges⟩⟩), s)

/-- The loop of `collect_resendable_datagrams` from slot `i` on, with `bw` bytes left. -/
def collectFrom (base : Sequence24) (now : Instant) : Nat → Nat → List (Option TrackedDatagram) → List Sequence24
  | _, _, [] => []
  | i, bw, none :: slots => collectFrom base now (i + 1) bw slots
  | i, bw, some tracked :: slots =>
    if tracked.nextSend ≤ now ∧ bw ≥ tracked.datagram.size then
      base.addI32 i :: collectFrom base now (i + 1) (bw - tracked.datagram.size) slots
    else collectFrom base now (i + 1) bw slots

def collectResendableDatagrams (s : Session F) (now : Instant) (bw : Nat) : List Sequence24 :=
  collectFrom s.sentDatagramsBase now 0 bw s.sentDatagrams

/-- One round of the loop of `resend_datagrams`. -/
def resendOne (now : Instant) (s : Session F) (seq : Sequence24) : Option OutgoingDatagram × Session F :=
  let dist := s.sentDatagramsBase.distanceTo seq
  match s.sentDatagrams[dist]? with
  | some (some tracked) =>
    let rto := s.sliding.getRtoForRetransmission
    (some (.shared tracked.datagram), { s with
      sentDatagrams := s.sentDatagrams.set dist (some ⟨tracked.datagram, now, now + rto⟩) })
  | _ => (none, s)

def resendLoop (now : Instant) : List Sequence24 → Session F → List OutgoingDatagram × Session F
  | [], s => ([], s)
  | seq :: rest, s =>
    let (sent, s) := resendOne now s seq
    let (out, s) := resendLoop now rest s
    (sent.toList ++ out, s)

def resendDatagrams (s : Session F) (toResend : List Sequence24) (now : Instant) :
    List OutgoingDatagram × Session F :=
  let (out, s) := resendLoop now toResend s
  (out, if out.isEmpty then s else { s with sliding := s.sliding.onResend s.datagramWriteIndex })

end BedrockRs.Raknet.Session
