/-
Periodic maintenance of a session (`session/tick.rs`), and the session as a machine: every operation
a caller can make, with any arguments, as one input.
-/
import BedrockRs.Lib.Machine
import BedrockRs.Raknet.Session.Inbound
import BedrockRs.Raknet.Session.Outbound

namespace BedrockRs.Raknet.Session

open Lib

variable {F : Type} [Float64 F]

/-- The loop of `on_tick` over the dropped split entries: the packets each `skip_index` releases are
not used. -/
def skipDropped (ordering : OrderingChannels) : List (Option UInt8 × Option Sequence24) → OrderingChannels
  | [] => ordering
  | (some ch, some idx) :: rest => skipDropped (ordering.skipIndex ch idx).2 rest
  | _ :: rest => skipDropped ordering rest

omit [Float64 F] in
/-- Drops expired split entries and skips their ordering indexes. -/
def pruneSplits (s : Session F) (now : Instant) (iter : IterOrder SplitEntries.Item) : Session F :=
  let (dropped, splitAssembler) := s.splitAssembler.prune now iter
  { s with splitAssembler, ordering := skipDropped s.ordering dropped }

/-- The resends of a tick. -/
def resendDue (s : Session F) (now : Instant) : List OutgoingDatagram × Session F :=
  let bw := s.sliding.getRetransmissionBandwidth
  if bw > 0 then s.resendDatagrams (s.collectResendableDatagrams now bw) now else ([], s)

/-- Prunes splits, schedules resends, and emits ACK and NAK datagrams. -/
def onTick (s : Session F) (now : Instant) (iter : IterOrder SplitEntries.Item) : List OutgoingDatagram × Session F :=
  let s := s.processIncomingAcksNaks now
  let s := s.pruneSplits now iter
  let (resends, s) := s.resendDue now
  let (ack, s) := s.buildAckDatagram
  let (nak, s) := s.buildNakDatagram
  (resends ++ ack.toList ++ nak.toList, s)

/-! ## The session as a machine -/

/-- An operation on a session. -/
inductive Op
  | queuePacket (pkt : RaknetPacket) (reliability : Reliability) (channel : UInt8) (priority : RakPriority)
  | buildDataDatagram (now : Instant)
  | handleDataPayload (packets : List EncapsulatedPacket) (now : Instant)
  | processDatagramSequence (seq : Sequence24)
  | handleAckPayload (payload : AckNackPayload)
  | handleNackPayload (payload : AckNackPayload)
  | onTick (now : Instant) (iter : IterOrder SplitEntries.Item)

def step (s : Session F) : Op → Session F
  | .queuePacket pkt reliability channel priority => (s.queuePacket pkt reliability channel priority).2
  | .buildDataDatagram now => (s.buildDataDatagram now).2
  | .handleDataPayload packets now => (s.handleDataPayload packets now).2
  | .processDatagramSequence seq => s.processDatagramSequence seq
  | .handleAckPayload payload => s.handleAckPayload payload
  | .handleNackPayload payload => s.handleNackPayload payload
  | .onTick now iter => (s.onTick now iter).2

/-- The state after any sequence of operations on a new session. -/
def after (mtu : Nat) (tunables : SessionTunables) (ops : List Op) : Session F :=
  Machine.run step (withTunables mtu tunables) ops

end BedrockRs.Raknet.Session
