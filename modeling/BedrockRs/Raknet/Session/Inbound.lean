/-
The receiving half of a session (`session/inbound.rs`): DATA payloads through duplicate filter,
reassembly and ordering to decoded packets, and the processing of queued ACKs and NAKs against the
tracked datagrams.

A call that fails returns the error together with the session as the call left it: the source
mutates in place and aborts with `?`.
-/
import BedrockRs.Raknet.Session.State

namespace BedrockRs.Raknet.Session

open Lib

variable {F : Type} [Float64 F]

/-! ## DATA payloads -/

/-- What the body of an encapsulated packet decodes to; an unknown identifier is user data. -/
def decodePayload (payload : Bytes) : Except DecodeError RaknetPacket :=
  match RaknetPacket.decodeFrom payload with
  | .ok pkt => .ok pkt
  | .error (.unknownId id) => .ok (.userData id payload.tail)
  | .error e => .error e

omit [Float64 F] in
/-- Decodes a packet and pushes it to the output, unless it is an encapsulated ACK or NAK. -/
def decodeAndPush (s : Session F) (enc : EncapsulatedPacket) :
    Except DecodeError (List IncomingPacket) × Session F :=
  match decodePayload enc.payload with
  | .error e => (.error e, s)
  | .ok (.encapsulatedAck payload) => (.ok [], { s with incomingAcks := s.incomingAcks ++ payload.ranges })
  | .ok (.encapsulatedNak payload) => (.ok [], { s with incomingNaks := s.incomingNaks ++ payload.ranges })
  | .ok pkt => (.ok [⟨pkt, enc.header.reliability, enc.orderingChannel⟩], s)

omit [Float64 F] in
/-- The loop over released packets, stopping at the first error. -/
def decodeAll : Session F → List EncapsulatedPacket → Except DecodeError (List IncomingPacket) × Session F
  | s, [] => (.ok [], s)
  | s, pkt :: rest =>
    match s.decodeAndPush pkt with
    | (.error e, s) => (.error e, s)
    | (.ok out, s) =>
      match decodeAll s rest with
      | (.error e, s) => (.error e, s)
      | (.ok out', s) => (.ok (out ++ out'), s)

omit [Float64 F] in
/-- Ordered delivery via the per-channel heaps. -/
def handleOrdered (s : Session F) (enc : EncapsulatedPacket) :
    Except DecodeError (List IncomingPacket) × Session F :=
  let (ready, ordering) := s.ordering.handleOrdered enc
  let s := { s with ordering }
  match ready with
  | some ready => s.decodeAll ready
  | none => (.ok [], s)

/-- The reliable index under which a packet is filtered: only whole reliable packets have one. -/
def filterIndex (enc : EncapsulatedPacket) : Option Sequence24 :=
  if enc.header.reliability.isReliable && !enc.header.isSplit then enc.reliableIndex else none

omit [Float64 F] in
/-- The delivery half of `handle_encapsulated`, for a whole or reassembled packet. -/
def deliver (s : Session F) (enc : EncapsulatedPacket) : Except DecodeError (List IncomingPacket) × Session F :=
  if enc.header.reliability.isOrdered then s.handleOrdered enc else s.decodeAndPush enc

omit [Float64 F] in
/-- Commits the reliable index of a whole packet; whether the tracker took it is not looked at. -/
def commitIndex (s : Session F) (ridx : Option Sequence24) : Session F :=
  match ridx with
  | some idx => { s with reliableTracker := (s.reliableTracker.see idx).2 }
  | none => s

omit [Float64 F] in
/-- Processes one encapsulated packet: duplicate filter, reassembly, commit, delivery. -/
def handleEncapsulated (s : Session F) (enc : EncapsulatedPacket) (now : Instant) :
    Except DecodeError (List IncomingPacket) × Session F :=
  let ridx := filterIndex enc
  if ridx.any s.reliableTracker.hasSeen then (.ok [], s)
  else
    match s.splitAssembler.add enc now with
    | (.error e, splitAssembler) => (.error e, { s with splitAssembler })
    | (.ok assembled, splitAssembler) =>
      let s := commitIndex { s with splitAssembler } ridx
      match assembled with
      | none => (.ok [], s)
      | some enc => s.deliver enc

omit [Float64 F] in
/-- Handles a list of encapsulated packets; an error drops what was decoded before it. -/
def handleDataPayload : Session F → List EncapsulatedPacket → Instant →
    Except DecodeError (List IncomingPacket) × Session F
  | s, [], _ => (.ok [], s)
  | s, enc :: rest, now =>
    match s.handleEncapsulated enc now with
    | (.error e, s) => (.error e, s)
    | (.ok out, s) =>
      match handleDataPayload s rest now with
      | (.error e, s) => (.error e, s)
      | (.ok out', s) => (.ok (out ++ out'), s)

omit [Float64 F] in
def handleAckPayload (s : Session F) (payload : AckNackPayload) : Session F :=
  { s with incomingAcks := s.incomingAcks ++ payload.ranges }

omit [Float64 F] in
def handleNackPayload (s : Session F) (payload : AckNackPayload) : Session F :=
  { s with incomingNaks := s.incomingNaks ++ payload.ranges }

/-! ## Acknowledgements -/

/-- One acknowledged sequence number: its slot is emptied and the sliding window told. -/
def ackOne (now : Instant) (s : Session F) (seq : Sequence24) : Session F :=
  let dist := s.sentDatagramsBase.distanceTo seq
  match s.sentDatagrams[dist]? with
  | some (some tracked) =>
    { s with
      sentDatagrams := s.sentDatagrams.set dist none
      sliding := if tracked.datagram.isData then s.sliding.onAck now tracked.datagram seq tracked.sendTime
        else s.sliding }
  | _ => s

/-- One missing sequence number: its datagram is due at once. -/
def nakOne (now : Instant) (s : Session F) (seq : Sequence24) : Session F :=
  let dist := s.sentDatagramsBase.distanceTo seq
  match s.sentDatagrams[dist]? with
  | some (some tracked) =>
    if tracked.datagram.isData then
      { s with
        sentDatagrams := s.sentDatagrams.set dist (some { tracked with nextSend := now })
        sliding := s.sliding.onNak }
    else s
  | _ => s

/-- Step 1 of `clean_sent_datagrams`: drops leading empty slots and leading datagrams that timed
out. -/
def dropLeading (timeout : Duration) (now : Instant) : Sequence24 → List (Option TrackedDatagram) →
    Sequence24 × List (Option TrackedDatagram)
  | base, [] => (base, [])
  | base, none :: slots => dropLeading timeout now base.next slots
  | base, some tracked :: slots =>
    if Instant.durationSince now tracked.sendTime > timeout then dropLeading timeout now base.next slots
    else (base, some tracked :: slots)

/-- Step 2: drops leading slots, occupied or not, while there are more than `max`. -/
def evictExcess (max : Nat) : Sequence24 → List (Option TrackedDatagram) →
    Sequence24 × List (Option TrackedDatagram)
  | base, [] => (base, [])
  | base, slot :: slots =>
    if slots.length + 1 > max then evictExcess max base.next slots else (base, slot :: slots)

/-- Step 3: drops trailing empty slots. -/
def trimTrailing (slots : List (Option TrackedDatagram)) : List (Option TrackedDatagram) :=
  (slots.reverse.dropWhile Option.isNone).reverse

omit [Float64 F] in
def cleanSentDatagrams (s : Session F) (now : Instant) : Session F :=
  let (base, slots) := dropLeading s.sentDatagramTimeout now s.sentDatagramsBase s.sentDatagrams
  let (base, slots) := evictExcess s.maxSentDatagrams base slots
  { s with sentDatagramsBase := base, sentDatagrams := trimTrailing slots }

/-- Applies all queued ACK ranges to the tracked datagrams. -/
def applyAcks (s : Session F) (now : Instant) : Session F :=
  { s.incomingAcks.foldl (fun s range => range.forEachSequenceInRange (ackOne now) s) s with incomingAcks := [] }

/-- Applies all queued NAK ranges to the tracked datagrams. -/
def processIncomingNaks (s : Session F) (now : Instant) : Session F :=
  { s.incomingNaks.foldl (fun s range => range.forEachSequenceInRange (nakOne now) s) s with incomingNaks := [] }

def processIncomingAcks (s : Session F) (now : Instant) : Session F := (s.applyAcks now).cleanSentDatagrams now

def processIncomingAcksNaks (s : Session F) (now : Instant) : Session F :=
  (s.processIncomingAcks now).processIncomingNaks now

end BedrockRs.Raknet.Session
