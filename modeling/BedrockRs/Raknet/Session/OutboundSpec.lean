/-
What queueing and building do, in terms of messages: a queued packet becomes a `Message`, whole or in
fragments, whose frames go to the outgoing heap (`queuePacket_spec`); building a datagram moves frames
from the heap to the datagram (`buildDataDatagram_spec`).
-/
import BedrockRs.Raknet.Session.Frame

namespace BedrockRs.Raknet

open Lib

/-! ## Messages -/

/-- The reliable index `n` places after `first`, for a reliable packet. -/
def Session.reliableIndexFrom (reliability : Reliability) (first : Sequence24) (n : Nat) : Option Sequence24 :=
  if reliability.isReliable then some (Sequence24.new (first.val + n)) else none

/-- The write index after `n` reliable indexes. -/
def Session.writeAfter (reliability : Reliability) (first : Sequence24) (n : Nat) : Sequence24 :=
  Sequence24.new (first.val + if reliability.isReliable then n else 0)

/-- The body of a queued message: sent whole, or in pieces under a split id. -/
inductive Message.Body
  | whole (payload : Bytes)
  | fragments (id : UInt16) (pieces : List Bytes)

/-- A packet as it was queued: its reliability (the one its frames carry), its channel, its first
reliable index and its ordering index. -/
structure Message where
  packet : RaknetPacket
  reliability : Reliability
  channel : UInt8
  firstReliable : Sequence24
  orderingIndex : Option Sequence24
  body : Message.Body

namespace Message

def payload (m : Message) : Bytes :=
  match m.body with
  | .whole payload => payload
  | .fragments _ pieces => pieces.flatten

/-- The reliable index of the `i`-th frame, if the message is reliable. -/
def reliableIndex (m : Message) (i : Nat) : Option Sequence24 :=
  Session.reliableIndexFrom m.reliability m.firstReliable i

/-- The frame of one piece. -/
def fragment (m : Message) (id : UInt16) (parts i : Nat) (piece : Bytes) : EncapsulatedPacket :=
  Session.fragmentEncap piece m.reliability m.channel (m.reliableIndex i) m.orderingIndex
    ⟨UInt32.ofNat parts, id, UInt32.ofNat i⟩

/-- The frames a message is sent in. -/
def frames (m : Message) : List EncapsulatedPacket :=
  match m.body with
  | .whole payload => [Session.singleEncap payload m.reliability m.channel (m.reliableIndex 0) m.orderingIndex]
  | .fragments id pieces => pieces.mapIdx (m.fragment id pieces.length)

def isFragmented (m : Message) : Bool :=
  match m.body with
  | .whole _ => false
  | .fragments .. => true

end Message

namespace Session

variable {F : Type} [Float64 F]

/-! ## Pieces -/

theorem length_chunks (maxLen : Nat) : ∀ (parts : Nat) (payload : Bytes), (chunks maxLen parts payload).length = parts
  | 0, _ => rfl
  | parts + 1, payload => by rw [chunks, List.length_cons, length_chunks]

theorem flatten_chunks (maxLen : Nat) : ∀ (parts : Nat) (payload : Bytes), payload.length ≤ maxLen * parts →
    (chunks maxLen parts payload).flatten = payload
  | 0, payload, h => by
    rw [Nat.mul_zero, Nat.le_zero, List.length_eq_zero_iff] at h
    rw [h]; rfl
  | parts + 1, payload, h => by
    have hrest : (payload.drop maxLen).length ≤ maxLen * parts := by
      rw [List.length_drop]
      rw [Nat.mul_succ] at h
      omega
    rw [chunks, List.flatten_cons, flatten_chunks maxLen parts _ hrest, List.take_append_drop]

theorem le_mul_parts {maxLen total : Nat} (h : 1 ≤ maxLen) : total ≤ maxLen * ((total - 1) / maxLen + 1) := by
  have := Nat.lt_mul_div_succ (total - 1) h
  omega

/-! ## Queueing -/

omit [Float64 F] in
/-- The ordering index `allocOrderingIndex` returns. -/
def orderingIndexFor (s : Session F) (reliability : Reliability) (channel : UInt8) : Option Sequence24 :=
  (s.allocOrderingIndex reliability channel).1

omit [Float64 F] in
/-- The message a packet becomes when it is queued, or nothing when it is refused. -/
def message (s : Session F) (pkt : RaknetPacket) (reliability : Reliability) (channel : UInt8) : Option Message :=
  if channel.toNat ≥ s.ordering.maxChannels then none
  else
    match pkt.encode with
    | .error _ => none
    | .ok payload =>
      if payload.length ≤ max (s.maxEncapsulatedPayloadLen reliability false) 1 then
        some ⟨pkt, reliability, channel, s.reliabilityWriteIndex, s.orderingIndexFor reliability channel,
          .whole payload⟩
      else
        let reliability := normalizeReliabilityForSplit reliability
        let maxLen := max (s.maxEncapsulatedPayloadLen reliability true) 1
        some ⟨pkt, reliability, channel, s.reliabilityWriteIndex, s.orderingIndexFor reliability channel,
          .fragments s.splitIndex (chunks maxLen ((payload.length - 1) / maxLen + 1) payload)⟩

/-- What queueing a message changes: its frames are in the heap, its indexes are used. -/
structure Queued (s : Session F) (m : Message) (s' : Session F) : Prop where
  heap : (s'.outgoingHeap.data.map QueuedEncap.pkt).Perm (m.frames ++ s.outgoingHeap.data.map QueuedEncap.pkt)
  reliable : s'.reliabilityWriteIndex = writeAfter m.reliability s.reliabilityWriteIndex m.frames.length
  split : s'.splitIndex = if m.isFragmented then s.splitIndex + 1 else s.splitIndex
  ordering : s'.ordering = (s.allocOrderingIndex m.reliability m.channel).2.ordering

theorem reliableIndexFrom_writeAfter (reliability : Reliability) (first : Sequence24) (n : Nat) :
    reliableIndexFrom reliability (writeAfter reliability first 1) n = reliableIndexFrom reliability first (n + 1) := by
  unfold reliableIndexFrom writeAfter
  split
  · refine congrArg some (Sequence24.ext ?_)
    simp only [Sequence24.val_new]
    omega
  · rfl

theorem writeAfter_writeAfter (reliability : Reliability) (first : Sequence24) (n : Nat) :
    writeAfter reliability (writeAfter reliability first 1) n = writeAfter reliability first (n + 1) := by
  unfold writeAfter
  apply Sequence24.ext
  simp only [Sequence24.val_new]
  split <;> omega

omit [Float64 F] in
theorem allocReliableIndex_eq (s : Session F) (reliability : Reliability) : s.allocReliableIndex reliability =
    (reliableIndexFrom reliability s.reliabilityWriteIndex 0,
      { s with reliabilityWriteIndex := writeAfter reliability s.reliabilityWriteIndex 1 }) := by
  unfold allocReliableIndex nextReliableIndex reliableIndexFrom writeAfter
  split
  · rw [Nat.add_zero, Sequence24.new_val]; rfl
  · rw [Nat.add_zero, Sequence24.new_val]

omit [Float64 F] in
theorem pushOutgoingEncap_heap (s : Session F) (pkt : EncapsulatedPacket) (priority : RakPriority) :
    ((s.pushOutgoingEncap pkt priority).outgoingHeap.data.map QueuedEncap.pkt).Perm
      (pkt :: s.outgoingHeap.data.map QueuedEncap.pkt) := by
  obtain ⟨_, _, weight, h⟩ := s.pushOutgoingEncap_frame pkt priority
  rw [h]
  exact (BinaryHeap.push_perm QueuedEncap.le s.outgoingHeap ⟨weight, pkt⟩).map QueuedEncap.pkt

omit [Float64 F] in
theorem pushOutgoingEncap_counters (s : Session F) (pkt : EncapsulatedPacket) (priority : RakPriority) :
    (s.pushOutgoingEncap pkt priority).reliabilityWriteIndex = s.reliabilityWriteIndex ∧
    (s.pushOutgoingEncap pkt priority).splitIndex = s.splitIndex ∧
    (s.pushOutgoingEncap pkt priority).ordering = s.ordering := by
  obtain ⟨_, _, weight, h⟩ := s.pushOutgoingEncap_frame pkt priority
  rw [h]; exact ⟨rfl, rfl, rfl⟩

/-- Frames of one priority, pushed in order. -/
def pushAll (priority : RakPriority) (frames : List EncapsulatedPacket) (s : Session F) : Session F :=
  frames.foldl (fun s frame => s.pushOutgoingEncap frame priority) s

section PushAll

omit [Float64 F]

variable (priority : RakPriority)

@[simp] theorem pushAll_nil (s : Session F) : pushAll priority [] s = s := rfl

@[simp] theorem pushAll_cons (frame : EncapsulatedPacket) (frames : List EncapsulatedPacket) (s : Session F) :
    pushAll priority (frame :: frames) s = pushAll priority frames (s.pushOutgoingEncap frame priority) := rfl

theorem pushAll_heap : ∀ (frames : List EncapsulatedPacket) (s : Session F),
    ((pushAll priority frames s).outgoingHeap.data.map QueuedEncap.pkt).Perm
    (frames ++ s.outgoingHeap.data.map QueuedEncap.pkt)
  | [], _ => List.Perm.refl _
  | frame :: frames, s => by
    rw [pushAll_cons, List.cons_append]
    refine (pushAll_heap frames _).trans (((s.pushOutgoingEncap_heap frame priority).append_left _).trans ?_)
    exact List.perm_middle

/-- Pushing does not look at the counters of indexes. -/
theorem pushAll_with (r : Sequence24) (i : UInt16) (o : OrderingChannels) :
    ∀ (frames : List EncapsulatedPacket) (s : Session F),
      pushAll priority frames { s with reliabilityWriteIndex := r, splitIndex := i, ordering := o } =
      { pushAll priority frames s with reliabilityWriteIndex := r, splitIndex := i, ordering := o }
  | [], _ => rfl
  | frame :: frames, s => pushAll_with r i o frames (s.pushOutgoingEncap frame priority)

end PushAll

omit [Float64 F] in
/-- The loop over the pieces: every piece becomes a frame with the next reliable index. -/
theorem enqueueFragments_eq (reliability : Reliability) (channel : UInt8) (orderingIndex : Option Sequence24)
    (splitId : UInt16) (parts : Nat) (priority : RakPriority) : ∀ (pieces : List Bytes) (i bytes : Nat) (s : Session F),
    (enqueueFragments reliability channel orderingIndex splitId parts priority i pieces bytes s).2 =
      { pushAll priority (pieces.mapIdx (fun j piece => fragmentEncap piece reliability channel
          (reliableIndexFrom reliability s.reliabilityWriteIndex j) orderingIndex
          ⟨UInt32.ofNat parts, splitId, UInt32.ofNat (i + j)⟩)) s with
        reliabilityWriteIndex := writeAfter reliability s.reliabilityWriteIndex pieces.length
        splitIndex := s.splitIndex
        ordering := s.ordering }
  | [], i, bytes, s => by
    simp [enqueueFragments, writeAfter]
  | piece :: rest, i, bytes, s => by
    unfold enqueueFragments
    rw [allocReliableIndex_eq]
    dsimp only
    generalize hframe :
      fragmentEncap piece reliability channel (reliableIndexFrom reliability s.reliabilityWriteIndex 0)
      orderingIndex ⟨UInt32.ofNat parts, splitId, UInt32.ofNat i⟩ = frame
    have hpush :
      pushOutgoingEncap { s with reliabilityWriteIndex := writeAfter reliability s.reliabilityWriteIndex 1 } frame
        priority = { s.pushOutgoingEncap frame priority with
          reliabilityWriteIndex := writeAfter reliability s.reliabilityWriteIndex 1 } := rfl
    rw [hpush, enqueueFragments_eq, List.mapIdx_cons, pushAll_cons, show i + 0 = i from rfl, hframe, List.length_cons]
    dsimp only
    -- the index of a later piece, counted from the second one and from the first
    have hrest : ∀ j, reliableIndexFrom reliability (writeAfter reliability s.reliabilityWriteIndex 1) j =
        reliableIndexFrom reliability s.reliabilityWriteIndex (j + 1) :=
      reliableIndexFrom_writeAfter reliability s.reliabilityWriteIndex
    simp only [hrest, writeAfter_writeAfter, show ∀ j, i + 1 + j = i + (j + 1) by omega]
    rw [pushAll_with priority _ (s.pushOutgoingEncap frame priority).splitIndex
      (s.pushOutgoingEncap frame priority).ordering]
    obtain ⟨-, hs, ho⟩ := s.pushOutgoingEncap_counters frame priority
    rw [hs, ho]

omit [Float64 F] in
/-- What queueing a message does to the session: its frames are pushed, its indexes are used. -/
def queueMessage (s : Session F) (m : Message) (priority : RakPriority) : Session F :=
  { pushAll priority m.frames s with
    reliabilityWriteIndex := writeAfter m.reliability s.reliabilityWriteIndex m.frames.length
    splitIndex := if m.isFragmented then s.splitIndex + 1 else s.splitIndex
    ordering := (s.allocOrderingIndex m.reliability m.channel).2.ordering }

omit [Float64 F] in
theorem queued_queueMessage (s : Session F) (m : Message) (priority : RakPriority) :
    Queued s m (s.queueMessage m priority) :=
  ⟨pushAll_heap priority m.frames s, rfl, rfl, rfl⟩

omit [Float64 F] in
theorem queuePacket_of_none {s : Session F} {pkt : RaknetPacket} {reliability : Reliability} {channel : UInt8}
    (h : s.message pkt reliability channel = none) (priority : RakPriority) :
    (s.queuePacket pkt reliability channel priority).2 = s := by
  unfold message at h
  unfold queuePacket
  split
  · rfl
  · rename_i hch
    rw [if_neg hch] at h
    split
    · rfl
    · rename_i payload he
      rw [he] at h
      simp only at h
      split at h
      · cases h
      · cases h

omit [Float64 F] in
theorem allocOrderingIndex_counters (s : Session F) (reliability : Reliability) (channel : UInt8) :
    (s.allocOrderingIndex reliability channel).2 =
      { s with ordering := (s.allocOrderingIndex reliability channel).2.ordering } := by
  obtain ⟨ordering, h⟩ := s.allocOrderingIndex_frame reliability channel
  rw [h]

omit [Float64 F] in
theorem enqueueSingleEncap_eq (s : Session F) (pkt : RaknetPacket) (payload : Bytes) (reliability : Reliability)
    (channel : UInt8) (priority : RakPriority) : (s.enqueueSingleEncap payload reliability channel priority).2 =
    s.queueMessage ⟨pkt, reliability, channel, s.reliabilityWriteIndex, s.orderingIndexFor reliability channel,
      .whole payload⟩ priority := by
  have hs : (s.enqueueSingleEncap payload reliability channel priority).2 =
      ((s.allocOrderingIndex reliability channel).2.allocReliableIndex reliability).2.pushOutgoingEncap
        (singleEncap payload reliability channel
          ((s.allocOrderingIndex reliability channel).2.allocReliableIndex reliability).1
          (s.allocOrderingIndex reliability channel).1) priority := rfl
  rw [hs, allocReliableIndex_eq, allocOrderingIndex_counters]
  exact pushAll_with priority (writeAfter reliability s.reliabilityWriteIndex 1) s.splitIndex
    (s.allocOrderingIndex reliability channel).2.ordering [_] s

omit [Float64 F] in
theorem enqueueFragmentedEncaps_eq (s : Session F) (pkt : RaknetPacket) (payload : Bytes) (reliability : Reliability)
    (channel : UInt8) (priority : RakPriority) :
    let maxLen := max (s.maxEncapsulatedPayloadLen (normalizeReliabilityForSplit reliability) true) 1
    (s.enqueueFragmentedEncaps payload reliability channel priority).2 =
      s.queueMessage ⟨pkt, normalizeReliabilityForSplit reliability, channel, s.reliabilityWriteIndex,
        s.orderingIndexFor (normalizeReliabilityForSplit reliability) channel,
        .fragments s.splitIndex (chunks maxLen ((payload.length - 1) / maxLen + 1) payload)⟩ priority := by
  intro maxLen
  have halloc : ({ s with splitIndex := s.splitIndex + 1 } : Session F).allocOrderingIndex
      (normalizeReliabilityForSplit reliability) channel =
      ((s.allocOrderingIndex (normalizeReliabilityForSplit reliability) channel).1, { s with
        splitIndex := s.splitIndex + 1
        ordering := (s.allocOrderingIndex (normalizeReliabilityForSplit reliability) channel).2.ordering }) := by
    unfold allocOrderingIndex
    split <;> rfl
  unfold enqueueFragmentedEncaps
  simp only
  rw [halloc, enqueueFragments_eq]
  dsimp only
  rw [pushAll_with priority s.reliabilityWriteIndex (s.splitIndex + 1)
    (s.allocOrderingIndex (normalizeReliabilityForSplit reliability) channel).2.ordering]
  simp only [queueMessage, Message.frames, Message.isFragmented, List.length_mapIdx, Nat.zero_add, if_true,
    length_chunks]
  unfold Message.fragment
  rfl

omit [Float64 F] in
/-- Queueing a packet queues its message. -/
theorem queuePacket_eq {s : Session F} {pkt : RaknetPacket} {reliability : Reliability} {channel : UInt8}
    {m : Message} (h : s.message pkt reliability channel = some m) (priority : RakPriority) :
    (s.queuePacket pkt reliability channel priority).2 = s.queueMessage m priority := by
  unfold message at h
  unfold queuePacket
  split at h
  · cases h
  · rename_i hch
    rw [if_neg hch]
    cases he : pkt.encode with
    | error e =>
      rw [he] at h
      cases h
    | ok payload =>
      rw [he] at h
      simp only at h ⊢
      split at h
      · rename_i hlen
        rw [if_pos hlen]
        cases h
        exact s.enqueueSingleEncap_eq pkt payload reliability channel priority
      · rename_i hlen
        rw [if_neg hlen]
        cases h
        exact s.enqueueFragmentedEncaps_eq pkt payload reliability channel priority

omit [Float64 F] in
/-- Queueing a packet puts the frames of its message into the outgoing heap. -/
theorem queuePacket_spec {s : Session F} {pkt : RaknetPacket} {reliability : Reliability} {channel : UInt8}
    {m : Message} (h : s.message pkt reliability channel = some m) (priority : RakPriority) :
    Queued s m (s.queuePacket pkt reliability channel priority).2 := by
  rw [queuePacket_eq h]
  exact s.queued_queueMessage m priority

omit [Float64 F] in
/-- A message is sent in at least one frame. -/
theorem message_frames_ne_nil {s : Session F} {pkt : RaknetPacket} {reliability : Reliability} {channel : UInt8}
    {m : Message} (h : s.message pkt reliability channel = some m) : m.frames ≠ [] := by
  unfold message at h
  split at h
  · cases h
  · split at h
    · cases h
    · split at h
      · cases h
        exact List.cons_ne_nil _ _
      · cases h
        intro hnil
        have hlen := congrArg List.length hnil
        rw [Message.frames, List.length_mapIdx, length_chunks] at hlen
        exact Nat.succ_ne_zero _ hlen

/-! ## Building -/

/-- The loop moves frames from the heap to the datagram. -/
theorem fillDatagram_perm (mtu : Nat) : ∀ (fuel : Nat) (heap : BinaryHeap QueuedEncap) (size bw : Nat), ∃ popped,
    (fillDatagram mtu fuel heap size bw).1 = popped.map QueuedEncap.pkt ∧
    heap.data.Perm (popped ++ (fillDatagram mtu fuel heap size bw).2.data)
  | 0, heap, _, _ => ⟨[], rfl, List.Perm.refl _⟩
  | fuel + 1, heap, size, bw => by
    unfold fillDatagram
    split
    · exact ⟨[], rfl, List.Perm.refl _⟩
    · rename_i top hpeek
      split
      · exact ⟨[], rfl, List.Perm.refl _⟩
      · split
        · exact ⟨[], rfl, List.Perm.refl _⟩
        · split
          · exact ⟨[], rfl, List.Perm.refl _⟩
          · rename_i queued heap' hpop
            obtain ⟨popped, h1, h2⟩ := fillDatagram_perm mtu fuel heap' (size + top.pkt.size) (bw - top.pkt.size)
            refine ⟨queued :: popped, by simp only [h1, List.map_cons], ?_⟩
            exact (BinaryHeap.pop_some hpop).2.trans (List.Perm.cons _ h2)

/-- Building moves frames from the outgoing heap to the datagram that is returned, if any; the
datagrams tracked afterwards are the ones before and this one. -/
theorem buildDataDatagram_spec (s : Session F) (now : Instant) : ∃ frames,
    (s.outgoingHeap.data.map QueuedEncap.pkt).Perm
      (frames ++ (s.buildDataDatagram now).2.outgoingHeap.data.map QueuedEncap.pkt) ∧
    ((s.buildDataDatagram now).1 = none ∧ frames = [] ∨
      ∃ o, (s.buildDataDatagram now).1 = some o ∧ o.asRef.payload = .encapsulatedPackets frames) ∧
    ∀ t, some t ∈ (s.buildDataDatagram now).2.sentDatagrams → some t ∈ s.sentDatagrams ∨
      ∃ o, (s.buildDataDatagram now).1 = some o ∧ t.datagram = o.asRef := by
  obtain ⟨popped, hpkts, hperm⟩ := fillDatagram_perm s.mtu s.outgoingHeap.len s.outgoingHeap
    (Datagram.ipv4HeaderSize + Datagram.udpHeaderSize + Datagram.raknetDatagramHeaderSize)
    s.sliding.getTransmissionBandwidth
  have hmap := hperm.map QueuedEncap.pkt
  rw [List.map_append] at hmap
  unfold buildDataDatagram
  split
  · exact ⟨[], List.Perm.refl _, .inl ⟨rfl, rfl⟩, fun _ => .inl⟩
  · simp only
    split
    · exact ⟨[], List.Perm.refl _, .inl ⟨rfl, rfl⟩, fun _ => .inl⟩
    · split
      · rename_i hempty
        rw [hpkts, List.isEmpty_iff] at hempty
        rw [hempty] at hmap
        exact ⟨[], hmap, .inl ⟨rfl, rfl⟩, fun _ => .inl⟩
      · rw [hpkts]
        split
        · -- tracked only if it carries a reliable frame
          refine ⟨popped.map QueuedEncap.pkt, hmap, .inr ⟨_, rfl, rfl⟩, fun t ht => ?_⟩
          simp only [trackSentDatagram, setTracked] at ht ⊢
          rcases List.mem_or_eq_of_mem_set ht with ht | ht
          · rcases List.mem_append.1 ht with ht | ht
            · exact .inl ht
            · cases List.eq_of_mem_replicate ht
          · cases ht
            exact .inr ⟨_, rfl, rfl⟩
        · exact ⟨popped.map QueuedEncap.pkt, hmap, .inr ⟨_, rfl, rfl⟩, fun _ => .inl⟩

/-- Building takes packets off the heap and puts none on it. -/
theorem buildDataDatagram_subperm (s : Session F) (now : Instant) :
    (s.buildDataDatagram now).2.outgoingHeap.data.Subperm s.outgoingHeap.data := by
  obtain ⟨popped, -, hperm⟩ := fillDatagram_perm s.mtu s.outgoingHeap.len s.outgoingHeap
    (Datagram.ipv4HeaderSize + Datagram.udpHeaderSize + Datagram.raknetDatagramHeaderSize)
    s.sliding.getTransmissionBandwidth
  have hfill := (List.sublist_append_right popped _).subperm.trans hperm.symm.subperm
  unfold buildDataDatagram
  split
  · exact List.Subperm.refl _
  · simp only
    split
    · exact List.Subperm.refl _
    · split
      · exact hfill
      · split
        · exact hfill
        · exact hfill

/-- A datagram that is built carries at least one frame and is marked as a valid datagram. -/
theorem buildDataDatagram_some {s : Session F} {now : Instant} {o : OutgoingDatagram}
    (h : (s.buildDataDatagram now).1 = some o) :
    o.asRef.packets ≠ [] ∧ o.asRef.header.flags.contains .valid = true := by
  have hflags : ∀ c :
    Bool, (if c then DatagramFlags.valid.or .continuousSend else DatagramFlags.valid.or .hasBAndAs).contains .valid =
      true := by decide
  unfold buildDataDatagram at h
  split at h
  · cases h
  · simp only at h
    split at h
    · cases h
    · split at h
      · cases h
      · rename_i hne
        rw [List.isEmpty_iff] at hne
        split at h
        · cases h
          exact ⟨hne, hflags _⟩
        · cases h
          exact ⟨hne, hflags _⟩

/-- A datagram that gets its first frame from the heap is put out with all the frames it got. -/
theorem buildDataDatagram_filled {s : Session F} {top : QueuedEncap} {rest : List EncapsulatedPacket}
    (hpeek : s.outgoingHeap.peek = some top) (hbw : top.pkt.size ≤ s.sliding.getTransmissionBandwidth)
    (hfill : (fillDatagram s.mtu s.outgoingHeap.len s.outgoingHeap 32 s.sliding.getTransmissionBandwidth).1 =
      top.pkt :: rest)
    (now : Instant) : ∃ o, (s.buildDataDatagram now).1 = some o ∧ o.asRef.packets = top.pkt :: rest := by
  obtain ⟨tail, hdata⟩ := List.head?_eq_some_iff.1 hpeek
  have hsome : s.outgoingHeap.isEmpty = false := by rw [BinaryHeap.isEmpty, hdata, List.isEmpty_cons]
  have hbandwidth : s.sliding.getTransmissionBandwidth ≠ 0 := by
    have hsize : 3 ≤ top.pkt.size := by
      unfold EncapsulatedPacket.size
      dsimp only
      omega
    omega
  unfold buildDataDatagram
  rw [hsome, if_neg Bool.false_ne_true]
  dsimp only
  rw [if_neg hbandwidth]
  rw [show Datagram.ipv4HeaderSize + Datagram.udpHeaderSize + Datagram.raknetDatagramHeaderSize = 32 from rfl, hfill]
  rw [List.isEmpty_cons, if_neg Bool.false_ne_true]
  split
  · exact ⟨_, rfl, rfl⟩
  · exact ⟨_, rfl, rfl⟩

end Session

end BedrockRs.Raknet
