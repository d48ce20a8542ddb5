/-
The session record (`session/mod.rs`) with its tunables, and the ACK/NAK bookkeeping of received
datagram sequence numbers (`process_datagram_sequence`).
-/
import BedrockRs.Raknet.Session.AckQueue
import BedrockRs.Raknet.Session.OrderingChannels
import BedrockRs.Raknet.Session.ReliableTracker
import BedrockRs.Raknet.Session.SlidingWindow
import BedrockRs.Raknet.Session.SplitAssembler

namespace BedrockRs.Raknet

open Lib

/-- A packet decoded out of a session along with delivery metadata. -/
structure IncomingPacket where
  packet : RaknetPacket
  reliability : Reliability
  orderingChannel : Option UInt8
deriving DecidableEq

/-- Tunable low-level session parameters. -/
structure SessionTunables where
  maxOrderingChannels : Nat := 16
  ackQueueCapacity : Nat := 1024
  splitTimeout : Duration := Duration.fromSecs 30
  reliableWindow : Nat := maxAckSequences
  maxSplitParts : Nat := 8192
  maxConcurrentSplits : Nat := 4096
  maxSentDatagrams : Nat := 4096
  sentDatagramTimeout : Duration := Duration.fromSecs 10
deriving DecidableEq

/-- A datagram on its way out, shared with the retransmission queue or owned. -/
inductive OutgoingDatagram
  | shared (d : Datagram)
  | owned (d : Datagram)
deriving DecidableEq

namespace OutgoingDatagram

def asRef : OutgoingDatagram → Datagram
  | shared d | owned d => d

def encode (o : OutgoingDatagram) : Except EncodeError Bytes := o.asRef.encode

end OutgoingDatagram

structure TrackedDatagram where
  datagram : Datagram
  sendTime : Instant
  nextSend : Instant
deriving DecidableEq

structure QueuedEncap where
  weight : Nat
  pkt : EncapsulatedPacket
deriving DecidableEq

/-- `<=` of `QueuedEncap`, whose `cmp` compares the weights the other way round: the heap's greatest
element has the smallest weight. -/
def QueuedEncap.le (a b : QueuedEncap) : Bool := b.weight ≤ a.weight

structure Session (F : Type) where
  mtu : Nat
  sliding : SlidingWindow F
  splitIndex : UInt16
  datagramReadIndex : Sequence24
  datagramWriteIndex : Sequence24
  reliabilityWriteIndex : Sequence24
  splitAssembler : SplitAssembler
  ordering : OrderingChannels
  reliableTracker : ReliableTracker
  outgoingHeap : BinaryHeap QueuedEncap
  outgoingPacketNextWeights : RakPriority → Nat
  lastMinWeight : Nat
  sentDatagramsBase : Sequence24
  sentDatagrams : List (Option TrackedDatagram)
  incomingAcks : List SequenceRange
  incomingNaks : List SequenceRange
  outgoingAcks : AckQueue
  outgoingNaks : AckQueue
  maxSentDatagrams : Nat
  sentDatagramTimeout : Duration

namespace Session

variable {F : Type} [Float64 F]

/-- The weight a level starts from. -/
def initialWeight (priority : RakPriority) : Nat :=
  (1 <<< priority.asIndex) * priority.asIndex + priority.asIndex

def withTunables (mtu : Nat) (tunables : SessionTunables) : Session F where
  mtu := mtu
  sliding := SlidingWindow.new mtu
  splitIndex := 0
  datagramReadIndex := Sequence24.new 0
  datagramWriteIndex := Sequence24.new 0
  reliabilityWriteIndex := Sequence24.new 0
  splitAssembler := SplitAssembler.new tunables.splitTimeout tunables.maxSplitParts tunables.maxConcurrentSplits
  ordering := OrderingChannels.new tunables.maxOrderingChannels
  reliableTracker := ReliableTracker.new tunables.reliableWindow
  outgoingHeap := BinaryHeap.empty
  outgoingPacketNextWeights := initialWeight
  lastMinWeight := 0
  sentDatagramsBase := Sequence24.new 0
  sentDatagrams := []
  incomingAcks := []
  incomingNaks := []
  outgoingAcks := AckQueue.new tunables.ackQueueCapacity
  outgoingNaks := AckQueue.new tunables.ackQueueCapacity
  maxSentDatagrams := tunables.maxSentDatagrams
  sentDatagramTimeout := tunables.sentDatagramTimeout

def new (mtu : Nat) : Session F := withTunables mtu {}

/-! ## Received sequence numbers -/

/-- The inner loop of the gap report: extends a chunk up to `stop`, by at most `n` numbers. -/
def chunkEnd (stop : Sequence24) : Nat → Sequence24 → Sequence24
  | 0, seq => seq
  | n + 1, seq => if seq.lt stop then chunkEnd stop n seq.next else seq

/-- The outer loop: queues `start..=stop` in chunks of at most `MAX_ACK_SEQUENCES` numbers. A chunk
takes at least one number, so the distance bounds the number of further rounds. -/
def queueNaks (stop : Sequence24) : Nat → AckQueue → Sequence24 → AckQueue
  | 0, naks, start => naks.push ⟨start, chunkEnd stop (maxAckSequences - 1) start⟩
  | fuel + 1, naks, start =>
    let last := chunkEnd stop (maxAckSequences - 1) start
    let naks := naks.push ⟨start, last⟩
    if last = stop then naks else queueNaks stop fuel naks last.next

omit [Float64 F] in
/-- Queues the ACK of a received sequence number, and NAKs for the gap it leaves behind it. -/
def processDatagramSequence (s : Session F) (seq : Sequence24) : Session F :=
  let prev := s.datagramReadIndex
  if prev.gt seq then { s with outgoingAcks := s.outgoingAcks.push ⟨seq, seq⟩ }
  else
    let s := { s with datagramReadIndex := seq.next }
    if seq = prev then { s with outgoingAcks := s.outgoingAcks.push ⟨seq, seq⟩ }
    else
      { s with
        outgoingNaks := queueNaks seq.prev (prev.distanceTo seq.prev) s.outgoingNaks prev
        outgoingAcks := s.outgoingAcks.push ⟨seq, seq⟩ }

end Session

end BedrockRs.Raknet
