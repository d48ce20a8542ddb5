/-
A sending session with its history: the messages queued so far and the datagrams put out so far. Two
invariants of every run: frames come from messages and are never lost (`Framed`), and messages are
numbered in the order in which they were queued (`Numbered`).
-/
import BedrockRs.Raknet.Session.Encodable
import BedrockRs.Raknet.Session.OrderingSpec

namespace BedrockRs.Raknet

open Lib

/-! ## The sender -/

namespace Session

variable {F : Type} [Float64 F]

omit [Float64 F] in
/-- The message an operation queues, if any. -/
def queued (s : Session F) : Op → Option Message
  | .queuePacket pkt reliability channel _ => s.message pkt reliability channel
  | _ => none

/-- The datagrams an operation puts out. -/
def emitted (s : Session F) : Op → List Datagram
  | .buildDataDatagram now => (s.buildDataDatagram now).1.toList.map OutgoingDatagram.asRef
  | .onTick now iter => (s.onTick now iter).1.map OutgoingDatagram.asRef
  | _ => []

end Session

/-- A sending session, the messages queued and the datagrams put out. -/
structure Sender (F : Type) where
  session : Session F
  log : List Message
  sent : List Datagram

namespace OrderingChannels

/-- The ordering indexes the channels give out next. -/
def writes (o : OrderingChannels) : List Sequence24 := o.channels.map OrderingChannel.orderWrite

theorem writes_set {o : OrderingChannels} {i : Nat} {c c' : OrderingChannel} (hc : o.channels[i]? = some c)
    (h : c'.orderWrite = c.orderWrite) : (⟨o.channels.set i c'⟩ : OrderingChannels).writes = o.writes := by
  unfold writes
  rw [List.map_set, h]
  exact set_of_getElem? (by rw [List.getElem?_map, hc]; rfl)

theorem handleOrdered_writes (o : OrderingChannels) (enc : EncapsulatedPacket) :
    (o.handleOrdered enc).2.writes = o.writes := by
  unfold handleOrdered
  split
  · rfl
  · split
    · rfl
    · rename_i c hc
      split
      · rfl
      · rename_i idx _
        refine writes_set hc ?_
        rcases c.handleOrdered_cases idx enc with ⟨-, -, he⟩ | ⟨-, -, he⟩ | ⟨-, -, he⟩ | ⟨-, he⟩
        · rw [he]
        · rw [he]
        · rw [he]
        · obtain ⟨_, -, hrel⟩ := OrderingChannel.drain_released c.heap.len { c with orderRead := c.orderRead.next }
          rw [he]; exact hrel.write

theorem skipIndex_writes (o : OrderingChannels) (channel : UInt8) (index : Sequence24) :
    (o.skipIndex channel index).2.writes = o.writes := by
  unfold skipIndex
  split
  · rfl
  · rename_i c hc
    refine writes_set hc ?_
    unfold OrderingChannel.skipIndex
    split
    · rfl
    · obtain ⟨_, -, hrel⟩ := OrderingChannel.drain_released c.heap.len { c with orderRead := c.orderRead.next }
      exact hrel.write

end OrderingChannels

namespace Session

variable {F : Type} [Float64 F]

theorem skipDropped_writes : ∀ (dropped : List (Option UInt8 × Option Sequence24)) (o : OrderingChannels),
    (skipDropped o dropped).writes = o.writes
  | [], _ => rfl
  | (some ch, some idx) :: rest, o => (skipDropped_writes rest _).trans (o.skipIndex_writes ch idx)
  | (some _, none) :: rest, o => skipDropped_writes rest o
  | (none, _) :: rest, o => skipDropped_writes rest o

omit [Float64 F] in
theorem deliver_writes (s : Session F) (enc : EncapsulatedPacket) :
    (s.deliver enc).2.ordering.writes = s.ordering.writes := by
  obtain ⟨_, _, h⟩ := s.deliver_frame enc
  rw [h]
  simp only
  split
  · exact s.ordering.handleOrdered_writes enc
  · rfl

omit [Float64 F] in
theorem handleEncapsulated_writes (s : Session F) (enc : EncapsulatedPacket) (now : Instant) :
    (s.handleEncapsulated enc now).2.ordering.writes = s.ordering.writes := by
  unfold handleEncapsulated
  simp only
  split
  · rfl
  · split
    · rfl
    · rename_i assembled splitAssembler _
      have hcommit : (commitIndex { s with splitAssembler } (filterIndex enc)).ordering = s.ordering := by
        cases filterIndex enc <;> rfl
      cases assembled with
      | none => exact congrArg OrderingChannels.writes hcommit
      | some enc' => exact (deliver_writes _ enc').trans (congrArg OrderingChannels.writes hcommit)

omit [Float64 F] in
theorem handleDataPayload_writes (packets : List EncapsulatedPacket) (s : Session F) (now : Instant) :
    (s.handleDataPayload packets now).2.ordering.writes = s.ordering.writes :=
  handleDataPayload_inv (I := fun s' => s'.ordering.writes = s.ordering.writes)
    (fun s' enc h => (s'.handleEncapsulated_writes enc now).trans h) packets rfl

end Session

namespace Sender

variable {F : Type} [Float64 F]

def new (mtu : Nat) (tunables : SessionTunables) : Sender F := ⟨Session.withTunables mtu tunables, [], []⟩

def step (x : Sender F) (op : Session.Op) : Sender F :=
  ⟨x.session.step op, x.log ++ (x.session.queued op).toList, x.sent ++ x.session.emitted op⟩

/-! ## Frames -/

/-- Every frame in the heap or in a datagram is a frame of a queued message, and every frame of a
queued message is in the heap or in a datagram. -/
structure Framed (x : Sender F) : Prop where
  queued : ∀ p ∈ x.session.outgoingHeap.data.map QueuedEncap.pkt, ∃ m ∈ x.log, p ∈ m.frames
  sent : ∀ d ∈ x.sent, ∀ p ∈ d.packets, ∃ m ∈ x.log, p ∈ m.frames
  tracked : ∀ d, some d ∈ x.session.tracked → d ∈ x.sent
  complete : ∀ m ∈ x.log, ∀ p ∈ m.frames,
    p ∈ x.session.outgoingHeap.data.map QueuedEncap.pkt ∨ ∃ d ∈ x.sent, p ∈ d.packets

theorem Framed.new (mtu : Nat) (tunables : SessionTunables) : Framed (Sender.new mtu tunables : Sender F) where
  queued p hp := by simp [Sender.new, Session.withTunables, BinaryHeap.empty] at hp
  sent d hd := by simp [Sender.new] at hd
  tracked d hd := by simp [Sender.new, Session.tracked, Session.withTunables] at hd
  complete m hm := by simp [Sender.new] at hm

omit [Float64 F] in
/-- An operation that leaves heap and tracked datagrams alone and puts nothing out. -/
theorem Framed.of_same {x : Sender F} (h : Framed x) {s : Session F} (hheap : s.outgoingHeap = x.session.outgoingHeap)
    (htracked : s.tracked = x.session.tracked) : Framed ⟨s, x.log ++ [], x.sent ++ []⟩ := by
  rw [List.append_nil, List.append_nil]
  exact ⟨by rw [hheap]; exact h.queued, h.sent, by rw [htracked]; exact h.tracked, by rw [hheap]; exact h.complete⟩

theorem Framed.queuePacket {x : Sender F} (h : Framed x) (pkt : RaknetPacket) (reliability : Reliability)
    (channel : UInt8) (priority : RakPriority) : Framed (x.step (.queuePacket pkt reliability channel priority)) := by
  unfold step
  simp only [Session.step, Session.queued, Session.emitted]
  cases hm : x.session.message pkt reliability channel with
  | none =>
    rw [Session.queuePacket_of_none hm]
    exact h.of_same rfl rfl
  | some m =>
    -- the frames of the message are in the heap, and nothing else has moved
    have hheap := (Session.queuePacket_spec hm priority).heap
    obtain ⟨_, _, _, _, _, _, hsame⟩ := x.session.queuePacket_same pkt reliability channel priority
    refine ⟨fun p hp => ?_, fun d hd p hp => ?_, fun d hd => ?_, fun m' hm' p hp => ?_⟩
    · rw [hheap.mem_iff, List.mem_append] at hp
      rcases hp with hp | hp
      · exact ⟨m, by simp, hp⟩
      · obtain ⟨m', hm', hp'⟩ := h.queued p hp
        exact ⟨m', List.mem_append_left _ hm', hp'⟩
    · obtain ⟨m', hm', hp'⟩ := h.sent d (by simpa using hd) p hp
      exact ⟨m', List.mem_append_left _ hm', hp'⟩
    · rw [hsame] at hd
      exact List.mem_append_left _ (h.tracked d hd)
    · rw [hheap.mem_iff, List.mem_append]
      rcases List.mem_append.1 hm' with hm' | hm'
      · rcases h.complete m' hm' p hp with hp | ⟨d, hd, hp⟩
        · exact .inl (.inr hp)
        · exact .inr ⟨d, List.mem_append_left _ hd, hp⟩
      · rw [Option.toList_some, List.mem_singleton] at hm'
        subst hm'
        exact .inl (.inl hp)

theorem Framed.buildDataDatagram {x : Sender F} (h : Framed x) (now : Instant) :
    Framed (x.step (.buildDataDatagram now)) := by
  unfold step
  simp only [Session.step, Session.queued, Session.emitted, Option.toList_none, List.append_nil]
  obtain ⟨frames, hheap, hout, htrack⟩ := x.session.buildDataDatagram_spec now
  -- what was put out holds the frames that left the heap
  have hout' : ∀ d ∈ (x.session.buildDataDatagram now).1.toList.map OutgoingDatagram.asRef, d.packets = frames := by
    intro d hd
    obtain ⟨o, ho, rfl⟩ := List.mem_map.1 hd
    rw [Option.mem_toList] at ho
    rcases hout with ⟨hnone, -⟩ | ⟨o', ho', hframes⟩
    · rw [hnone] at ho; cases ho
    · rw [ho'] at ho
      cases ho
      rw [Datagram.packets, hframes]
  refine ⟨fun p hp => h.queued p (hheap.mem_iff.2 (List.mem_append_right _ hp)), fun d hd p hp => ?_, fun d hd => ?_,
    fun m hm p hp => ?_⟩
  · rcases List.mem_append.1 hd with hd | hd
    · exact h.sent d hd p hp
    · rw [hout' d hd] at hp
      exact h.queued p (hheap.mem_iff.2 (List.mem_append_left _ hp))
  · obtain ⟨t, ht, rfl⟩ := Session.some_mem_tracked.1 hd
    rcases htrack t ht with ht | ⟨o, ho, hd⟩
    · exact List.mem_append_left _ (h.tracked _ (Session.some_mem_tracked.2 ⟨t, ht, rfl⟩))
    · rw [ho, hd]
      simp
  · rcases h.complete m hm p hp with hp | ⟨d, hd, hp⟩
    · rw [hheap.mem_iff, List.mem_append] at hp
      rcases hp with hp | hp
      · rcases hout with ⟨-, hnil⟩ | ⟨o, ho, hframes⟩
        · rw [hnil] at hp; cases hp
        · refine .inr ⟨o.asRef, by rw [ho]; simp, ?_⟩
          rw [Datagram.packets, hframes]; exact hp
      · exact .inl hp
    · exact .inr ⟨d, List.mem_append_left _ hd, hp⟩

theorem Framed.onTick {x : Sender F} (h : Framed x) (now : Instant) (iter : IterOrder SplitEntries.Item) :
    Framed (x.step (.onTick now iter)) := by
  unfold step
  simp only [Session.step, Session.queued, Session.emitted, Option.toList_none, List.append_nil]
  obtain ⟨_, _, htick⟩ := x.session.onTick_state now iter
  obtain ⟨_, _, _, hafter⟩ := x.session.afterResends_frame now iter
  have hheap : (x.session.onTick now iter).2.outgoingHeap = x.session.outgoingHeap := by rw [htick, hafter]; rfl
  -- the resends were sent before
  have hout : ∀ d ∈ (x.session.onTick now iter).1.map OutgoingDatagram.asRef, d.packets = [] ∨ d ∈ x.sent := by
    intro d hd
    obtain ⟨o, ho, rfl⟩ := List.mem_map.1 hd
    refine (Session.onTick_data ho).imp (fun hdata => ?_) (h.tracked _)
    exact Datagram.packets_of_not_isData hdata
  refine ⟨by rw [hheap]; exact h.queued, fun d hd p hp => ?_, fun d hd => ?_, fun m hm p hp => ?_⟩
  · rcases List.mem_append.1 hd with hd | hd
    · exact h.sent d hd p hp
    · rcases hout d hd with hnil | hd
      · rw [hnil] at hp; cases hp
      · exact h.sent d hd p hp
  · refine List.mem_append_left _ (h.tracked d (Session.mem_tracked_of_processed now ?_))
    dsimp only at hd
    rwa [(x.session.onTick_sameQueue now iter).1] at hd
  · rw [hheap]
    refine (h.complete m hm p hp).imp_right ?_
    rintro ⟨d, hd, hp⟩
    exact ⟨d, List.mem_append_left _ hd, hp⟩

theorem Framed.step {x : Sender F} (h : Framed x) (op : Session.Op) : Framed (x.step op) := by
  cases op with
  | queuePacket pkt reliability channel priority => exact h.queuePacket pkt reliability channel priority
  | buildDataDatagram now => exact h.buildDataDatagram now
  | onTick now iter => exact h.onTick now iter
  | handleDataPayload packets now =>
    obtain ⟨_, _, _, _, _, e⟩ := Session.handleDataPayload_same packets x.session now
    refine h.of_same ?_ ?_ <;> rw [Session.step, e]
    rfl
  | processDatagramSequence seq =>
    obtain ⟨_, _, e⟩ := x.session.processDatagramSequence_frame seq
    refine h.of_same ?_ ?_ <;> rw [Session.step, e]
    rfl
  | handleAckPayload payload => exact h.of_same rfl rfl
  | handleNackPayload payload => exact h.of_same rfl rfl

end Sender

/-! ## Numbers -/

/-- The messages sent on an ordering channel, in the order in which they were queued. -/
def orderedOn (channel : UInt8) (log : List Message) : List Message :=
  log.filter fun m => m.reliability.isOrdered && m.channel == channel

def fragmentedCount (log : List Message) : Nat := log.countP Message.isFragmented

/-- The reliable indexes a message takes. -/
def Message.reliableFrames (m : Message) : Nat := if m.reliability.isReliable then m.frames.length else 0

def reliableCount (log : List Message) : Nat := (log.map Message.reliableFrames).sum

/-- What a message queued after `before` is numbered. -/
structure Message.NumberedAfter (before : List Message) (m : Message) : Prop where
  reliable : m.firstReliable = Sequence24.new (reliableCount before)
  split : ∀ id pieces, m.body = .fragments id pieces → id = UInt16.ofNat (fragmentedCount before)
  ordering : m.reliability.isOrdered = true →
    m.orderingIndex = some (Sequence24.new (orderedOn m.channel before).length)

/-- The messages are numbered in the order in which they were queued, and the counters are past
them. -/
structure Numbered {F : Type} (s : Session F) (log : List Message) : Prop where
  reliable : s.reliabilityWriteIndex = Sequence24.new (reliableCount log)
  split : s.splitIndex = UInt16.ofNat (fragmentedCount log)
  ordering : ∀ (c : UInt8) w, s.ordering.writes[c.toNat]? = some w → w = Sequence24.new (orderedOn c log).length
  messages : ∀ i m, log[i]? = some m → Message.NumberedAfter (log.take i) m

theorem orderedOn_append (c : UInt8) (as bs : List Message) :
    orderedOn c (as ++ bs) = orderedOn c as ++ orderedOn c bs :=
  List.filter_append _ _

theorem fragmentedCount_append (as bs : List Message) :
    fragmentedCount (as ++ bs) = fragmentedCount as + fragmentedCount bs :=
  List.countP_append

theorem reliableCount_append (as bs : List Message) :
    reliableCount (as ++ bs) = reliableCount as + reliableCount bs := by
  rw [reliableCount, List.map_append, List.sum_append]; rfl

namespace Session

variable {F : Type} [Float64 F]

/-- What `message` makes of a packet. -/
structure Made (s : Session F) (pkt : RaknetPacket) (m : Message) : Prop where
  packet : m.packet = pkt
  channel : m.channel.toNat < s.ordering.maxChannels
  payload : pkt.encode = .ok m.payload
  reliable : m.firstReliable = s.reliabilityWriteIndex
  split : ∀ id pieces, m.body = .fragments id pieces → id = s.splitIndex ∧ pieces ≠ [] ∧ m.reliability.isReliable = true
  ordering : m.orderingIndex = s.orderingIndexFor m.reliability m.channel

theorem normalize_isReliable (reliability : Reliability) :
    (normalizeReliabilityForSplit reliability).isReliable = true := by
  cases reliability <;> rfl

omit [Float64 F] in
theorem message_made {s : Session F} {pkt : RaknetPacket} {reliability : Reliability} {channel : UInt8} {m : Message}
    (h : s.message pkt reliability channel = some m) : s.Made pkt m := by
  unfold message at h
  split at h
  · cases h
  · rename_i hch
    rw [ge_iff_le, not_le] at hch
    split at h
    · cases h
    · rename_i payload hp
      split at h
      · cases h
        exact ⟨rfl, hch, hp, rfl, fun _ _ hb => (by cases hb), rfl⟩
      · cases h
        refine ⟨rfl, hch, ?_, rfl, fun id pieces hb => ?_, rfl⟩
        · simp only [Message.payload]
          rw [flatten_chunks _ _ _ (le_mul_parts (Nat.le_max_right _ _)), hp]
        · cases hb
          exact ⟨rfl, by rw [chunks]; simp, normalize_isReliable reliability⟩

omit [Float64 F] in
theorem allocOrderingIndex_writes {s : Session F} (reliability : Reliability) {channel : UInt8}
    (hch : channel.toNat < s.ordering.maxChannels) :
    ∃ w, s.ordering.writes[channel.toNat]? = some w ∧
      s.orderingIndexFor reliability channel = (if reliability.isOrdered then some w else none) ∧
      (s.allocOrderingIndex reliability channel).2.ordering.writes =
        if reliability.isOrdered then s.ordering.writes.set channel.toNat w.next else s.ordering.writes := by
  refine ⟨(s.ordering.channels[channel.toNat]).orderWrite, ?_, ?_⟩
  · rw [OrderingChannels.writes, List.getElem?_map, List.getElem?_eq_getElem hch]; rfl
  · unfold orderingIndexFor allocOrderingIndex OrderingChannels.nextOrderIndex
    rw [List.getElem?_eq_getElem hch]
    cases reliability.isOrdered with
    | true => exact ⟨rfl, by simp only [if_true, OrderingChannels.writes, List.map_set]⟩
    | false => exact ⟨rfl, rfl⟩

end Session

namespace Numbered

variable {F : Type} [Float64 F] {s s' : Session F} {log : List Message}

omit [Float64 F] in
theorem of_same (h : Numbered s log) (hr : s'.reliabilityWriteIndex = s.reliabilityWriteIndex)
    (hs : s'.splitIndex = s.splitIndex) (ho : s'.ordering.writes = s.ordering.writes) : Numbered s' (log ++ []) := by
  rw [List.append_nil]
  exact ⟨hr.trans h.reliable, hs.trans h.split, by rw [ho]; exact h.ordering, h.messages⟩

theorem new (mtu : Nat) (tunables : SessionTunables) : Numbered (Session.withTunables mtu tunables : Session F) [] where
  reliable := rfl
  split := rfl
  ordering c w hw := by
    simp only [Session.withTunables, OrderingChannels.new, OrderingChannels.writes, List.map_replicate,
      List.getElem?_replicate] at hw
    split at hw
    · cases hw; rfl
    · cases hw
  messages i m hm := by simp at hm

omit [Float64 F] in
theorem next (h : Numbered s log) {pkt : RaknetPacket} {reliability : Reliability} {channel : UInt8} {m : Message}
    (hm : s.message pkt reliability channel = some m) : m.NumberedAfter log := by
  have hmade := Session.message_made hm
  refine ⟨hmade.reliable.trans h.reliable, fun id pieces hb => ((hmade.split id pieces hb).1).trans h.split,
    fun ho => ?_⟩
  obtain ⟨w, hw, hidx, -⟩ := Session.allocOrderingIndex_writes m.reliability hmade.channel
  rw [hmade.ordering, hidx, if_pos ho, h.ordering m.channel w hw]

omit [Float64 F] in
theorem queuePacket (h : Numbered s log) {pkt : RaknetPacket} {reliability : Reliability} {channel : UInt8}
    {m : Message} (hm : s.message pkt reliability channel = some m) (priority : RakPriority) :
    Numbered (s.queuePacket pkt reliability channel priority).2 (log ++ [m]) := by
  have hq := Session.queuePacket_spec hm priority
  have hmade := Session.message_made hm
  refine ⟨?_, ?_, fun c w hw => ?_, fun i m' hm' => ?_⟩
  · rw [hq.reliable, h.reliable, reliableCount_append]
    apply Sequence24.ext
    simp only [Session.writeAfter, Sequence24.val_new, reliableCount, List.map_cons, List.map_nil, List.sum_cons,
      List.sum_nil, Message.reliableFrames]
    omega
  · rw [hq.split, h.split, fragmentedCount_append]
    cases hf : m.isFragmented <;> simp [fragmentedCount, hf, UInt16.ofNat_add]
  · -- only the write index of the message's own channel moves, and only for an ordered message
    obtain ⟨w', hw', -, hwrites⟩ := Session.allocOrderingIndex_writes m.reliability hmade.channel
    rw [hq.ordering, hwrites] at hw
    rw [orderedOn_append, List.length_append]
    have hw'' := h.ordering m.channel w' hw'
    cases ho : m.reliability.isOrdered with
    | false =>
      rw [ho] at hw
      have hnil : orderedOn c [m] = [] := by simp [orderedOn, ho]
      rw [hnil, List.length_nil, Nat.add_zero]
      exact h.ordering c w hw
    | true =>
      rw [ho, if_pos rfl, List.getElem?_set] at hw
      split at hw
      · rename_i hc
        have hc : m.channel = c := UInt8.toNat_inj.1 hc
        subst hc
        have hone : orderedOn m.channel [m] = [m] := by simp [orderedOn, ho]
        split at hw
        · cases hw
          rw [hone, hw'']
          apply Sequence24.ext
          simp only [Sequence24.next, Sequence24.val_new, List.length_singleton]
          omega
        · cases hw
      · rename_i hc
        have hne : orderedOn c [m] = [] := by
          have : m.channel ≠ c := fun e => hc (by rw [e])
          simp [orderedOn, this]
        rw [hne, List.length_nil, Nat.add_zero]
        exact h.ordering c w hw
  · -- the new message is the last of the log; it was numbered by the counters before it
    rcases Nat.lt_trichotomy i log.length with hi | rfl | hi
    · rw [List.getElem?_append_left hi] at hm'
      rw [List.take_append_of_le_length (by omega)]
      exact h.messages i m' hm'
    · rw [List.getElem?_append_right (Nat.le_refl _), Nat.sub_self] at hm'
      cases hm'
      rw [List.take_append_of_le_length (Nat.le_refl _), List.take_length]
      exact h.next hm
    · rw [List.getElem?_eq_none (by simp; omega)] at hm'
      cases hm'

end Numbered

/-- What every queued message has. -/
structure Message.WellFormed (m : Message) : Prop where
  payload : m.packet.encode = .ok m.payload
  fragments : ∀ id pieces, m.body = .fragments id pieces → pieces ≠ [] ∧ m.reliability.isReliable = true
  unordered : m.reliability.isOrdered = false → m.orderingIndex = none

namespace Sender

variable {F : Type} [Float64 F]

/-- The invariant of a sender. -/
structure Inv (x : Sender F) : Prop where
  framed : Framed x
  numbered : Numbered x.session x.log
  wellFormed : ∀ m ∈ x.log, m.WellFormed

theorem Inv.new (mtu : Nat) (tunables : SessionTunables) : Inv (Sender.new mtu tunables : Sender F) :=
  ⟨.new mtu tunables, .new mtu tunables, fun m hm => by simp [Sender.new] at hm⟩

omit [Float64 F] in
theorem wellFormed_of_made {s : Session F} {pkt : RaknetPacket} {m : Message} (h : s.Made pkt m) : m.WellFormed := by
  refine ⟨h.packet ▸ h.payload, fun id pieces hb => (h.split id pieces hb).2, fun ho => ?_⟩
  obtain ⟨w, -, hidx, -⟩ := Session.allocOrderingIndex_writes m.reliability h.channel
  rw [h.ordering, hidx, if_neg (by simp [ho])]

/-- Operations that queue nothing leave the numbers alone. -/
theorem numbered_step {s : Session F} {log : List Message} (h : Numbered s log) (op : Session.Op) :
    Numbered (s.step op) (log ++ (s.queued op).toList) := by
  have hcases := s.step_cases op
  generalize s.step op = s' at hcases
  cases hcases with
  | @queuePacket pkt reliability channel priority _ =>
    rw [Session.queued]
    cases hm : s.message pkt reliability channel with
    | none =>
      rw [Session.queuePacket_of_none hm, Option.toList_none, List.append_nil]
      exact h
    | some m => exact h.queuePacket hm priority
  | @handleDataPayload packets now hsame =>
    have hwrites := Session.handleDataPayload_writes packets s now
    obtain ⟨_, _, _, _, _, hdata⟩ := hsame
    rw [hdata] at hwrites ⊢
    exact h.of_same rfl rfl hwrites
  | onTick => exact h.of_same rfl rfl (Session.skipDropped_writes _ _)
  | _ => exact h.of_same rfl rfl rfl

theorem Inv.step {x : Sender F} (h : Inv x) (op : Session.Op) : Inv (x.step op) := by
  refine ⟨h.framed.step op, numbered_step h.numbered op, fun m hm => ?_⟩
  rcases List.mem_append.1 hm with hm | hm
  · exact h.wellFormed m hm
  · cases op with
    | queuePacket pkt reliability channel priority =>
      exact wellFormed_of_made (Session.message_made (Option.mem_toList.1 hm))
    | _ => cases hm

end Sender

/-! ## Finding a message by its numbers -/

theorem filter_getElem?_take {α : Type} (p : α → Bool) : ∀ {l : List α} {i : Nat} {a : α}, l[i]? = some a → p a = true →
    (l.filter p)[((l.take i).filter p).length]? = some a
  | [], i, a, h, _ => by simp at h
  | x :: l, 0, a, h, hp => by
    cases h
    simp [hp]
  | x :: l, i + 1, a, h, hp => by
    have ih := filter_getElem?_take p (l := l) (i := i) (by simpa using h) hp
    rw [List.take_succ_cons, List.filter_cons, List.filter_cons]
    split
    · rw [List.length_cons, List.getElem?_cons_succ, ih]
    · exact ih

theorem countP_take_lt {α : Type} (p : α → Bool) {l : List α} {i j : Nat} {a : α} (h : l[i]? = some a) (hp : p a = true)
    (hij : i < j) : (l.take i).countP p < (l.take j).countP p := by
  obtain ⟨hi, rfl⟩ := List.getElem?_eq_some_iff.1 h
  have htake : l.take (i + 1) <+: l.take j := List.take_prefix_take_left (by omega)
  have hle := htake.sublist.countP_le (p := p)
  rw [← List.take_append_getElem hi, List.countP_append, List.countP_singleton, if_pos hp] at hle
  omega

namespace Numbered

variable {F : Type} {s : Session F} {log : List Message}

/-- An ordered message stands at the position its ordering index says. -/
theorem ordered (h : Numbered s log) {m : Message} (hm : m ∈ log) (ho : m.reliability.isOrdered = true) :
    ∃ k, (orderedOn m.channel log)[k]? = some m ∧ m.orderingIndex = some (Sequence24.new k) := by
  obtain ⟨i, hi⟩ := List.mem_iff_getElem?.1 hm
  refine ⟨_, filter_getElem?_take _ hi (by simp [ho]), (h.messages i m hi).ordering ho⟩

/-- With fewer than `2 ^ 16` fragmented messages, a split id names one of them. -/
theorem fragments_inj (h : Numbered s log) (hlt : fragmentedCount log < 2 ^ 16) {i j : Nat} {m m' : Message}
    {id : UInt16} {pieces pieces' : List Bytes} (hi : log[i]? = some m) (hj : log[j]? = some m')
    (hm : m.body = .fragments id pieces) (hm' : m'.body = .fragments id pieces') : i = j := by
  have hbound : ∀ n, fragmentedCount (log.take n) < 2 ^ 16 := fun n =>
    ((List.take_sublist n log).countP_le).trans_lt hlt
  have hid := ((h.messages i m hi).split id pieces hm).symm.trans ((h.messages j m' hj).split id pieces' hm')
  have hcount : fragmentedCount (log.take i) = fragmentedCount (log.take j) := by
    have := congrArg UInt16.toNat hid
    rwa [UInt16.toNat_ofNat_of_lt' (hbound i), UInt16.toNat_ofNat_of_lt' (hbound j)] at this
  have hfrag : m.isFragmented = true := by rw [Message.isFragmented, hm]
  have hfrag' : m'.isFragmented = true := by rw [Message.isFragmented, hm']
  rcases Nat.lt_trichotomy i j with hij | hij | hij
  · have := countP_take_lt Message.isFragmented hi hfrag hij
    unfold fragmentedCount at hcount; omega
  · exact hij
  · have := countP_take_lt Message.isFragmented hj hfrag' hij
    unfold fragmentedCount at hcount; omega

end Numbered

end BedrockRs.Raknet
