/-
Which fields of a session an operation can change. One lemma for each operation, of the form "the
new session is the old one with these fields replaced"; every invariant about the other fields
follows from it by rewriting.
-/
import BedrockRs.Raknet.Session.Tick

namespace BedrockRs.Raknet.Session

open Lib

variable {F : Type} [Float64 F]

/-! ## Sending -/

omit [Float64 F] in
theorem allocReliableIndex_frame (s : Session F) (reliability : Reliability) :
    ∃ reliabilityWriteIndex, (s.allocReliableIndex reliability).2 = { s with reliabilityWriteIndex } := by
  unfold allocReliableIndex nextReliableIndex
  split
  · exact ⟨_, rfl⟩
  · exact ⟨s.reliabilityWriteIndex, rfl⟩

omit [Float64 F] in
theorem allocOrderingIndex_frame (s : Session F) (reliability : Reliability) (channel : UInt8) :
    ∃ ordering, (s.allocOrderingIndex reliability channel).2 = { s with ordering } := by
  unfold allocOrderingIndex
  split
  · exact ⟨_, rfl⟩
  · exact ⟨s.ordering, rfl⟩

omit [Float64 F] in
theorem pushOutgoingEncap_frame (s : Session F) (pkt : EncapsulatedPacket) (priority : RakPriority) :
    ∃ w l weight, s.pushOutgoingEncap pkt priority = { s with
      outgoingPacketNextWeights := w, lastMinWeight := l
      outgoingHeap := s.outgoingHeap.push QueuedEncap.le ⟨weight, pkt⟩ } := by
  unfold pushOutgoingEncap getNextWeight
  exact ⟨_, _, _, rfl⟩

/-- Two sessions that differ at most in what queueing changes. -/
def SameButQueue (s s' : Session F) : Prop :=
  ∃ ordering reliabilityWriteIndex splitIndex outgoingHeap w l, s' = { s with
    ordering, reliabilityWriteIndex, splitIndex, outgoingHeap, outgoingPacketNextWeights := w, lastMinWeight := l }

omit [Float64 F] in
theorem SameButQueue.refl (s : Session F) : SameButQueue s s := ⟨_, _, _, _, _, _, rfl⟩

omit [Float64 F] in
theorem SameButQueue.trans {s s' s'' : Session F} (h : SameButQueue s s') (h' : SameButQueue s' s'') :
    SameButQueue s s'' := by
  obtain ⟨_, _, _, _, _, _, rfl⟩ := h
  obtain ⟨_, _, _, _, _, _, rfl⟩ := h'
  exact ⟨_, _, _, _, _, _, rfl⟩

omit [Float64 F] in
theorem allocReliableIndex_same (s : Session F) (reliability : Reliability) :
    SameButQueue s (s.allocReliableIndex reliability).2 := by
  obtain ⟨_, h⟩ := s.allocReliableIndex_frame reliability
  rw [h]; exact ⟨_, _, _, _, _, _, rfl⟩

omit [Float64 F] in
theorem allocOrderingIndex_same (s : Session F) (reliability : Reliability) (channel : UInt8) :
    SameButQueue s (s.allocOrderingIndex reliability channel).2 := by
  obtain ⟨_, h⟩ := s.allocOrderingIndex_frame reliability channel
  rw [h]; exact ⟨_, _, _, _, _, _, rfl⟩

omit [Float64 F] in
theorem pushOutgoingEncap_same (s : Session F) (pkt : EncapsulatedPacket) (priority : RakPriority) :
    SameButQueue s (s.pushOutgoingEncap pkt priority) := by
  obtain ⟨_, _, _, h⟩ := s.pushOutgoingEncap_frame pkt priority
  rw [h]; exact ⟨_, _, _, _, _, _, rfl⟩

omit [Float64 F] in
theorem enqueueFragments_same (reliability : Reliability) (channel : UInt8) (orderingIndex : Option Sequence24)
    (splitId : UInt16) (parts : Nat) (priority : RakPriority) :
    ∀ (pieces : List Bytes) (i bytes : Nat) (s : Session F), SameButQueue s
      (enqueueFragments reliability channel orderingIndex splitId parts priority i pieces bytes s).2
  | [], _, _, s => .refl s
  | _ :: rest, _, _, s =>
    (s.allocReliableIndex_same reliability).trans <| (pushOutgoingEncap_same _ _ _).trans <|
      enqueueFragments_same reliability channel orderingIndex splitId parts priority rest _ _ _

omit [Float64 F] in
theorem queuePacket_same (s : Session F) (pkt : RaknetPacket) (reliability : Reliability) (channel : UInt8)
    (priority : RakPriority) : SameButQueue s (s.queuePacket pkt reliability channel priority).2 := by
  unfold queuePacket
  split
  · exact .refl s
  · split
    · exact .refl s
    · simp only
      split
      · exact (s.allocOrderingIndex_same reliability channel).trans <|
          (allocReliableIndex_same _ _).trans (pushOutgoingEncap_same _ _ _)
      · unfold enqueueFragmentedEncaps
        have hsplit : SameButQueue s { s with splitIndex := s.splitIndex + 1 } := ⟨_, _, _, _, _, _, rfl⟩
        exact hsplit.trans <| (allocOrderingIndex_same _ _ _).trans (enqueueFragments_same ..)

theorem buildDataDatagram_frame (s : Session F) (now : Instant) :
    ∃ outgoingHeap datagramWriteIndex sliding sentDatagrams, (s.buildDataDatagram now).2 =
      { s with outgoingHeap, datagramWriteIndex, sliding, sentDatagrams } := by
  unfold buildDataDatagram trackSentDatagram
  split
  · exact ⟨_, _, _, _, rfl⟩
  · simp only
    split
    · exact ⟨_, _, _, _, rfl⟩
    · split
      · exact ⟨_, s.datagramWriteIndex, s.sliding, s.sentDatagrams, rfl⟩
      · split
        · exact ⟨_, _, _, _, rfl⟩
        · exact ⟨_, _, s.sliding, s.sentDatagrams, rfl⟩

/-! ## Receiving -/

/-- Two sessions that differ at most in what handling a DATA payload changes. -/
def SameButDelivery (s s' : Session F) : Prop :=
  ∃ reliableTracker splitAssembler ordering incomingAcks incomingNaks, s' = { s with
    reliableTracker, splitAssembler, ordering, incomingAcks, incomingNaks }

omit [Float64 F] in
theorem SameButDelivery.refl (s : Session F) : SameButDelivery s s := ⟨_, _, _, _, _, rfl⟩

omit [Float64 F] in
theorem SameButDelivery.trans {s s' s'' : Session F} (h : SameButDelivery s s') (h' : SameButDelivery s' s'') :
    SameButDelivery s s'' := by
  obtain ⟨_, _, _, _, _, rfl⟩ := h
  obtain ⟨_, _, _, _, _, rfl⟩ := h'
  exact ⟨_, _, _, _, _, rfl⟩

omit [Float64 F] in
/-- Decoding touches the queued acknowledgements only. -/
theorem decodeAndPush_frame (s : Session F) (enc : EncapsulatedPacket) : ∃ incomingAcks incomingNaks,
    (s.decodeAndPush enc).2 = { s with incomingAcks, incomingNaks } := by
  unfold decodeAndPush
  split <;> exact ⟨_, _, rfl⟩

omit [Float64 F] in
theorem decodeAll_frame : ∀ (pkts : List EncapsulatedPacket) (s : Session F), ∃ incomingAcks incomingNaks,
    (s.decodeAll pkts).2 = { s with incomingAcks, incomingNaks }
  | [], s => ⟨_, _, rfl⟩
  | pkt :: rest, s => by
    obtain ⟨a, n, h⟩ := s.decodeAndPush_frame pkt
    unfold decodeAll
    split
    · rename_i e s' hd
      rw [hd] at h; exact ⟨a, n, h⟩
    · rename_i out s' hd
      rw [hd] at h
      change s' = _ at h
      subst h
      obtain ⟨a', n', h'⟩ := decodeAll_frame rest { s with incomingAcks := a, incomingNaks := n }
      split
      · rename_i e s'' hr
        rw [hr] at h'; exact ⟨a', n', h'⟩
      · rename_i out' s'' hr
        rw [hr] at h'; exact ⟨a', n', h'⟩

omit [Float64 F] in
/-- Delivery changes the ordering channels as `handle_ordered` does, and queued acknowledgements. -/
theorem deliver_frame (s : Session F) (enc : EncapsulatedPacket) : ∃ incomingAcks incomingNaks,
    (s.deliver enc).2 = { s with
      ordering := if enc.header.reliability.isOrdered then (s.ordering.handleOrdered enc).2 else s.ordering
      incomingAcks, incomingNaks } := by
  unfold deliver handleOrdered
  split
  · simp only
    split
    · rename_i ready hready
      exact decodeAll_frame ready { s with ordering := (s.ordering.handleOrdered enc).2 }
    · exact ⟨_, _, rfl⟩
  · exact decodeAndPush_frame s enc

omit [Float64 F] in
theorem deliver_same (s : Session F) (enc : EncapsulatedPacket) : SameButDelivery s (s.deliver enc).2 := by
  obtain ⟨_, _, h⟩ := s.deliver_frame enc
  rw [h]; exact ⟨_, _, _, _, _, rfl⟩

omit [Float64 F] in
theorem commitIndex_same (s : Session F) (ridx : Option Sequence24) : SameButDelivery s (s.commitIndex ridx) := by
  cases ridx <;> exact ⟨_, _, _, _, _, rfl⟩

omit [Float64 F] in
theorem handleEncapsulated_same (s : Session F) (enc : EncapsulatedPacket) (now : Instant) :
    SameButDelivery s (s.handleEncapsulated enc now).2 := by
  unfold handleEncapsulated
  simp only
  split
  · exact .refl s
  · split
    · exact ⟨_, _, _, _, _, rfl⟩
    · rename_i assembled splitAssembler hadd
      have hadd : SameButDelivery s { s with splitAssembler } := ⟨_, _, _, _, _, rfl⟩
      have hcommit := hadd.trans (commitIndex_same { s with splitAssembler } (filterIndex enc))
      cases assembled with
      | none => exact hcommit
      | some enc => exact hcommit.trans (deliver_same _ enc)

omit [Float64 F] in
theorem handleDataPayload_cons_error {s s' : Session F} {enc : EncapsulatedPacket} {now : Instant} {e : DecodeError}
    (rest : List EncapsulatedPacket) (h : s.handleEncapsulated enc now = (.error e, s')) :
    s.handleDataPayload (enc :: rest) now = (.error e, s') := by
  rw [handleDataPayload, h]

omit [Float64 F] in
theorem handleDataPayload_cons_ok {s s' : Session F} {enc : EncapsulatedPacket} {now : Instant}
    {out : List IncomingPacket} (rest : List EncapsulatedPacket) (h : s.handleEncapsulated enc now = (.ok out, s')) :
    s.handleDataPayload (enc :: rest) now =
      ((s'.handleDataPayload rest now).1.map (out ++ ·), (s'.handleDataPayload rest now).2) := by
  rw [handleDataPayload, h]
  dsimp only
  rcases s'.handleDataPayload rest now with ⟨_ | out', s''⟩ <;> rfl

omit [Float64 F] in
/-- What handling one packet keeps, handling a payload keeps, also when it stops at an error. -/
theorem handleDataPayload_inv {I : Session F → Prop} {now : Instant}
    (hI : ∀ s enc, I s → I (s.handleEncapsulated enc now).2) (packets : List EncapsulatedPacket) {s : Session F}
    (h : I s) : I (s.handleDataPayload packets now).2 := by
  induction packets generalizing s with
  | nil => exact h
  | cons enc rest ih =>
    have hfirst := hI s enc h
    rcases hhandled : s.handleEncapsulated enc now with ⟨_ | out, s'⟩
    · rw [hhandled] at hfirst
      rw [handleDataPayload_cons_error rest hhandled]
      exact hfirst
    · rw [hhandled] at hfirst
      rw [handleDataPayload_cons_ok rest hhandled]
      exact ih hfirst

omit [Float64 F] in
theorem handleDataPayload_same (packets : List EncapsulatedPacket) (s : Session F) (now : Instant) :
    SameButDelivery s (s.handleDataPayload packets now).2 :=
  handleDataPayload_inv (fun s' enc h => h.trans (s'.handleEncapsulated_same enc now)) packets (.refl s)

omit [Float64 F] in
theorem processDatagramSequence_frame (s : Session F) (seq : Sequence24) :
    ∃ datagramReadIndex outgoingNaks, s.processDatagramSequence seq = { s with
      datagramReadIndex, outgoingNaks, outgoingAcks := s.outgoingAcks.push ⟨seq, seq⟩ } := by
  unfold processDatagramSequence
  simp only
  split
  · exact ⟨_, s.outgoingNaks, rfl⟩
  · split
    · exact ⟨_, s.outgoingNaks, rfl⟩
    · exact ⟨_, _, rfl⟩

/-! ## The tick -/

/-- Two sessions that differ at most in the tracked datagrams and the congestion window. -/
def SameButTracked (s s' : Session F) : Prop :=
  ∃ sliding sentDatagramsBase sentDatagrams, s' = { s with sliding, sentDatagramsBase, sentDatagrams }

omit [Float64 F] in
theorem SameButTracked.refl (s : Session F) : SameButTracked s s := ⟨_, _, _, rfl⟩

omit [Float64 F] in
theorem SameButTracked.trans {s s' s'' : Session F} (h : SameButTracked s s') (h' : SameButTracked s' s'') :
    SameButTracked s s'' := by
  obtain ⟨_, _, _, rfl⟩ := h
  obtain ⟨_, _, _, rfl⟩ := h'
  exact ⟨_, _, _, rfl⟩

omit [Float64 F] in
/-- A fold of steps that keep to the tracked datagrams keeps to them. -/
theorem SameButTracked.foldl {ι : Type} {f : Session F → ι → Session F} (hf : ∀ s i, SameButTracked s (f s i)) :
    ∀ (is : List ι) (s : Session F), SameButTracked s (is.foldl f s)
  | [], s => .refl s
  | i :: is, s => (hf s i).trans (SameButTracked.foldl hf is (f s i))

theorem ackOne_same (now : Instant) (s : Session F) (seq : Sequence24) : SameButTracked s (ackOne now s seq) := by
  unfold ackOne
  simp only
  split
  · exact ⟨_, _, _, rfl⟩
  · exact .refl s

theorem nakOne_same (now : Instant) (s : Session F) (seq : Sequence24) : SameButTracked s (nakOne now s seq) := by
  unfold nakOne
  simp only
  split
  · split
    · exact ⟨_, _, _, rfl⟩
    · exact .refl s
  · exact .refl s

omit [Float64 F] in
theorem forEachRange_same {f : Session F → Sequence24 → Session F} (hf : ∀ s i, SameButTracked s (f s i))
    (ranges : List SequenceRange) (s : Session F) :
    SameButTracked s (ranges.foldl (fun s range => range.forEachSequenceInRange f s) s) := by
  rw [SequenceRange.foldl_forEach]
  exact .foldl hf _ s

theorem processIncomingAcksNaks_frame (s : Session F) (now : Instant) :
    ∃ sliding sentDatagramsBase sentDatagrams, s.processIncomingAcksNaks now = { s with
      sliding, sentDatagramsBase, sentDatagrams, incomingAcks := [], incomingNaks := [] } := by
  obtain ⟨_, _, _, ha⟩ := forEachRange_same (ackOne_same now) s.incomingAcks s
  have hacks : s.processIncomingAcks now = (s.applyAcks now).cleanSentDatagrams now := rfl
  unfold applyAcks at hacks
  rw [ha] at hacks
  obtain ⟨_, _, _, hn⟩ := forEachRange_same (nakOne_same now) (s.processIncomingAcks now).incomingNaks
    (s.processIncomingAcks now)
  unfold processIncomingAcksNaks processIncomingNaks
  rw [hn, hacks]
  exact ⟨_, _, _, rfl⟩

theorem resendOne_same (now : Instant) (s : Session F) (seq : Sequence24) :
    SameButTracked s (resendOne now s seq).2 := by
  unfold resendOne
  simp only
  split
  · exact ⟨_, _, _, rfl⟩
  · exact .refl s

theorem resendLoop_same (now : Instant) : ∀ (seqs : List Sequence24) (s : Session F),
    SameButTracked s (resendLoop now seqs s).2
  | [], s => .refl s
  | seq :: rest, s => (resendOne_same now s seq).trans (resendLoop_same now rest _)

theorem resendDue_same (s : Session F) (now : Instant) : SameButTracked s (s.resendDue now).2 := by
  unfold resendDue
  simp only
  split
  · unfold resendDatagrams
    simp only
    refine (resendLoop_same now (s.collectResendableDatagrams now s.sliding.getRetransmissionBandwidth) s).trans ?_
    split
    · exact .refl _
    · exact ⟨_, _, _, rfl⟩
  · exact .refl s

omit [Float64 F] in
theorem buildAckDatagram_state (s : Session F) :
    s.buildAckDatagram.2 = { s with outgoingAcks := (s.outgoingAcks.popForMtu s.mtu ackOverhead).2 } := by
  unfold buildAckDatagram
  simp only
  split <;> rfl

omit [Float64 F] in
theorem buildNakDatagram_state (s : Session F) :
    s.buildNakDatagram.2 = { s with outgoingNaks := (s.outgoingNaks.popForMtu s.mtu ackOverhead).2 } := by
  unfold buildNakDatagram
  simp only
  split <;> rfl

/-- The session in which a tick sends its resends. -/
def beforeResends (s : Session F) (now : Instant) (iter : IterOrder SplitEntries.Item) : Session F :=
  (s.processIncomingAcksNaks now).pruneSplits now iter

/-- The session after the resends of a tick. -/
def afterResends (s : Session F) (now : Instant) (iter : IterOrder SplitEntries.Item) : Session F :=
  ((s.beforeResends now iter).resendDue now).2

theorem onTick_eq (s : Session F) (now : Instant) (iter : IterOrder SplitEntries.Item) : s.onTick now iter =
    (((s.beforeResends now iter).resendDue now).1 ++ (s.afterResends now iter).buildAckDatagram.1.toList ++
      (s.afterResends now iter).buildAckDatagram.2.buildNakDatagram.1.toList,
      (s.afterResends now iter).buildAckDatagram.2.buildNakDatagram.2) := by
  unfold onTick afterResends beforeResends
  simp only

/-- After its resends a tick only pops ACK and NAK ranges. -/
theorem onTick_state (s : Session F) (now : Instant) (iter : IterOrder SplitEntries.Item) :
    ∃ outgoingAcks outgoingNaks,
      (s.onTick now iter).2 = { s.afterResends now iter with outgoingAcks, outgoingNaks } := by
  rw [onTick_eq, buildNakDatagram_state, buildAckDatagram_state]
  exact ⟨_, _, rfl⟩

/-- What a tick leaves alone up to its resends. -/
theorem afterResends_frame (s : Session F) (now : Instant) (iter : IterOrder SplitEntries.Item) :
    ∃ sliding sentDatagramsBase sentDatagrams, s.afterResends now iter = { s.pruneSplits now iter with
      sliding, sentDatagramsBase, sentDatagrams, incomingAcks := [], incomingNaks := [] } := by
  obtain ⟨_, _, _, hdue⟩ := resendDue_same (s.beforeResends now iter) now
  obtain ⟨_, _, _, hacks⟩ := s.processIncomingAcksNaks_frame now
  rw [afterResends, hdue, beforeResends, hacks]
  exact ⟨_, _, _, rfl⟩

theorem onTick_outgoingAcks (s : Session F) (now : Instant) (iter : IterOrder SplitEntries.Item) :
    (s.onTick now iter).2.outgoingAcks = (s.outgoingAcks.popForMtu s.mtu ackOverhead).2 := by
  obtain ⟨_, _, _, h⟩ := s.afterResends_frame now iter
  rw [onTick_eq, buildNakDatagram_state, buildAckDatagram_state, h]
  rfl

theorem onTick_outgoingNaks (s : Session F) (now : Instant) (iter : IterOrder SplitEntries.Item) :
    (s.onTick now iter).2.outgoingNaks = (s.outgoingNaks.popForMtu s.mtu ackOverhead).2 := by
  obtain ⟨_, _, _, h⟩ := s.afterResends_frame now iter
  rw [onTick_eq, buildNakDatagram_state, buildAckDatagram_state, h]
  rfl

/-! ## One step -/

/-- The session after one operation, with the fields replaced that the operation can change. -/
inductive Stepped (s : Session F) : Op → Session F → Prop
  | queuePacket {pkt : RaknetPacket} {reliability : Reliability} {channel : UInt8} {priority : RakPriority}
      (h : SameButQueue s (s.queuePacket pkt reliability channel priority).2) :
      Stepped s (.queuePacket pkt reliability channel priority) (s.queuePacket pkt reliability channel priority).2
  | buildDataDatagram {now : Instant} (outgoingHeap datagramWriteIndex sliding sentDatagrams) :
      Stepped s (.buildDataDatagram now) { s with outgoingHeap, datagramWriteIndex, sliding, sentDatagrams }
  | handleDataPayload {packets : List EncapsulatedPacket} {now : Instant}
      (h : SameButDelivery s (s.handleDataPayload packets now).2) :
      Stepped s (.handleDataPayload packets now) (s.handleDataPayload packets now).2
  | processDatagramSequence {seq : Sequence24} (datagramReadIndex outgoingNaks) :
      Stepped s (.processDatagramSequence seq)
        { s with datagramReadIndex, outgoingNaks, outgoingAcks := s.outgoingAcks.push ⟨seq, seq⟩ }
  | handleAckPayload {payload : AckNackPayload} (incomingAcks) :
    Stepped s (.handleAckPayload payload) { s with incomingAcks }
  | handleNackPayload {payload : AckNackPayload} (incomingNaks) :
    Stepped s (.handleNackPayload payload) { s with incomingNaks }
  | onTick {now : Instant} {iter : IterOrder SplitEntries.Item}
      (sliding sentDatagramsBase sentDatagrams outgoingAcks outgoingNaks) : Stepped s (.onTick now iter)
        { s.pruneSplits now iter with
          sliding, sentDatagramsBase, sentDatagrams, incomingAcks := [], incomingNaks := [],
          outgoingAcks, outgoingNaks }

theorem step_cases (s : Session F) (op : Op) : s.Stepped op (s.step op) := by
  cases op with
  | queuePacket pkt reliability channel priority =>
    exact .queuePacket (s.queuePacket_same pkt reliability channel priority)
  | buildDataDatagram now =>
    obtain ⟨heap, write, sliding, sent, hbuild⟩ := s.buildDataDatagram_frame now
    rw [step, hbuild]
    exact .buildDataDatagram heap write sliding sent
  | handleDataPayload packets now => exact .handleDataPayload (handleDataPayload_same packets s now)
  | processDatagramSequence seq =>
    obtain ⟨read, naks, hseq⟩ := s.processDatagramSequence_frame seq
    rw [step, hseq]
    exact .processDatagramSequence read naks
  | handleAckPayload payload => exact .handleAckPayload _
  | handleNackPayload payload => exact .handleNackPayload _
  | onTick now iter =>
    obtain ⟨acks, naks, htick⟩ := s.onTick_state now iter
    obtain ⟨sliding, base, sent, hafter⟩ := s.afterResends_frame now iter
    rw [step, htick, hafter]
    exact .onTick sliding base sent acks naks

omit [Float64 F] in
/-- No operation changes the MTU or the limit on tracked datagrams. -/
theorem Stepped.fixed {s s' : Session F} {op : Op} (h : s.Stepped op s') :
    s'.mtu = s.mtu ∧ s'.maxSentDatagrams = s.maxSentDatagrams := by
  cases h with
  | queuePacket h =>
    obtain ⟨_, _, _, _, _, _, hqueue⟩ := h
    rw [hqueue]
    exact ⟨rfl, rfl⟩
  | handleDataPayload h =>
    obtain ⟨_, _, _, _, _, hdata⟩ := h
    rw [hdata]
    exact ⟨rfl, rfl⟩
  | _ => exact ⟨rfl, rfl⟩

omit [Float64 F] in
/-- ACKs and NAKs are queued for received sequence numbers and sent by ticks, and by nothing else. -/
theorem Stepped.control {s s' : Session F} {op : Op} (h : s.Stepped op s') :
    (∃ seq, op = .processDatagramSequence seq) ∨ (∃ now iter, op = .onTick now iter) ∨
      s'.outgoingAcks = s.outgoingAcks ∧ s'.outgoingNaks = s.outgoingNaks := by
  cases h with
  | processDatagramSequence => exact .inl ⟨_, rfl⟩
  | onTick => exact .inr (.inl ⟨_, _, rfl⟩)
  | queuePacket h =>
    obtain ⟨_, _, _, _, _, _, hqueue⟩ := h
    rw [hqueue]
    exact .inr (.inr ⟨rfl, rfl⟩)
  | handleDataPayload h =>
    obtain ⟨_, _, _, _, _, hdata⟩ := h
    rw [hdata]
    exact .inr (.inr ⟨rfl, rfl⟩)
  | _ => exact .inr (.inr ⟨rfl, rfl⟩)

end BedrockRs.Raknet.Session
