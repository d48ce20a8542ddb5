/-
Which datagrams a managed session can put out that the encoder refuses. Whether a frame has the
fields its reliability calls for is decided when a packet is queued; the encoder looks at it much
later, after the priority heap and perhaps after several retransmissions. The queue never assigns a
sequence index, so a packet with a sequenced reliability becomes a datagram that cannot be encoded;
every other packet is encoded without error.
-/
import BedrockRs.Raknet.Session.ManagedRuns
import BedrockRs.Raknet.Session.Outgoing

namespace BedrockRs.Raknet

open Lib

/-! ## Frames of one message -/

/-- A message whose frames get every field that the encoder asks for. -/
structure Message.Complete (m : Message) : Prop where
  notSequenced : m.reliability.isSequenced = false
  ordering : m.reliability.isOrdered = true → m.orderingIndex.isSome = true

theorem Session.reliableIndexFrom_isSome {reliability : Reliability} (h : reliability.isReliable = true)
    (first : Sequence24) (n : Nat) : (Session.reliableIndexFrom reliability first n).isSome = true := by
  unfold Session.reliableIndexFrom
  rw [if_pos h]; rfl

theorem Message.Complete.encodable {m : Message} (h : m.Complete) : ∀ p ∈ m.frames, p.Encodable := by
  have hordering : (m.reliability.isOrdered || m.reliability.isSequenced) = true →
      m.orderingIndex.isSome = true ∧ (m.orderingIndex.map fun _ => m.channel).isSome = true := by
    rw [h.notSequenced, Bool.or_false, Option.isSome_map]
    exact fun ho => ⟨h.ordering ho, h.ordering ho⟩
  have hseq : ∀ idx : Option Sequence24, m.reliability.isSequenced = true → idx.isSome = true := by
    intro idx hs
    rw [h.notSequenced] at hs; cases hs
  intro p hp
  unfold Message.frames at hp
  split at hp
  · rw [List.mem_singleton] at hp
    subst hp
    exact ⟨fun hr => Session.reliableIndexFrom_isSome hr _ _, hseq _, hordering, fun hs => by cases hs⟩
  · rw [List.mem_mapIdx] at hp
    obtain ⟨i, hi, rfl⟩ := hp
    exact ⟨fun hr => Session.reliableIndexFrom_isSome hr _ _, hseq _, hordering, fun _ => rfl⟩

namespace Session

variable {F : Type} [Float64 F]

theorem normalize_isSequenced (reliability : Reliability) :
    (normalizeReliabilityForSplit reliability).isSequenced = reliability.isSequenced := by
  cases reliability <;> rfl

omit [Float64 F] in
theorem orderingIndexFor_isSome {s : Session F} {reliability : Reliability} {channel : UInt8}
    (hch : channel.toNat < s.ordering.maxChannels) (hr : reliability.isOrdered = true) :
    (s.orderingIndexFor reliability channel).isSome = true := by
  unfold orderingIndexFor allocOrderingIndex OrderingChannels.nextOrderIndex
  rw [if_pos hr, List.getElem?_eq_getElem hch]; rfl

omit [Float64 F] in
/-- Queueing with a reliability that is not sequenced makes a complete message. -/
theorem message_complete {s : Session F} {pkt : RaknetPacket} {reliability : Reliability} {channel : UInt8}
    {m : Message} (h : s.message pkt reliability channel = some m) (hseq : reliability.isSequenced = false) :
    m.Complete := by
  unfold message at h
  split at h
  · cases h
  · rename_i hch
    rw [ge_iff_le, not_le] at hch
    split at h
    · cases h
    · split at h
      · cases h
        exact ⟨hseq, orderingIndexFor_isSome hch⟩
      · cases h
        exact ⟨(normalize_isSequenced reliability).trans hseq, orderingIndexFor_isSome hch⟩

/-! ## Runs of a session -/

/-- Every frame that waits in the heap or in a tracked datagram can be encoded. -/
structure FramesEncodable (s : Session F) : Prop where
  queued : ∀ p ∈ s.outgoingHeap.data.map QueuedEncap.pkt, p.Encodable
  tracked : ∀ d, some d ∈ s.tracked → ∀ p ∈ d.packets, p.Encodable

omit [Float64 F] in
theorem framesEncodable_iff {s : Session F} : FramesEncodable s ↔
    Outgoing EncapsulatedPacket.Encodable (fun d => ∀ p ∈ d.packets, p.Encodable) s :=
  ⟨fun h => ⟨h.queued, h.tracked⟩, fun h => ⟨h.queued, h.tracked⟩⟩

theorem FramesEncodable.new (mtu : Nat) (tunables : SessionTunables) :
    FramesEncodable (withTunables mtu tunables : Session F) := framesEncodable_iff.2 (.new mtu tunables)

/-- An operation that queues no frame with a sequenced reliability. -/
def NotSequenced : Op → Prop
  | .queuePacket pkt reliability _ _ => reliability.isSequenced = true → ∀ payload, pkt.encode ≠ .ok payload
  | _ => True

theorem FramesEncodable.step {s : Session F} (h : FramesEncodable s) (op : Op) (hop : NotSequenced op) :
    FramesEncodable (s.step op) := by
  have ho := framesEncodable_iff.1 h
  refine framesEncodable_iff.2 (ho.step op ?_ fun now o hb => ho.built hb)
  rintro pkt reliability channel priority rfl m hm
  cases hr : reliability.isSequenced with
  | false => exact (message_complete hm hr).encodable
  | true =>
    -- such a packet is not encodable, so no message is made of it
    have hne := hop hr
    unfold message at hm
    split at hm
    · cases hm
    · split at hm
      · cases hm
      · rename_i payload hp
        exact absurd hp (hne payload)

end Session

/-! ## Runs of a managed session -/

namespace ManagedSession

variable {F : Type} [Float64 F]

/-- A call that does not queue a packet with a sequenced reliability: the packet is refused by the
checks or cannot be encoded. -/
def QueuesNoSequenced (m : ManagedSession F) : Op → Prop
  | .queueAppPacket pkt rel channel _ _ => rel.isSequenced = true →
    m.checkAppPacket pkt channel ≠ .ok () ∨ ∀ payload, pkt.encode ≠ .ok payload
  | _ => True

theorem handlerOp_notSequenced (op : Session.Op) (h : HandlerOp op) : Session.NotSequenced op := by
  cases op with
  | queuePacket pkt reliability channel priority =>
    intro hs
    rw [show reliability.isSequenced = false from h] at hs; cases hs
  | _ => trivial

theorem framesEncodable_step {start : Instant} {m : ManagedSession F} (h : m.inner.FramesEncodable) {op : Op}
    (hop : QueuesNoSequenced m op) : (m.step start op).inner.FramesEncodable := by
  refine Machine.Reach.inv
    (step_inner handlerOp_notSequenced start m op (fun _ _ _ => trivial) (fun _ _ _ _ _ => trivial) ?_)
    (fun s op hp hs => hs.step op hp) h
  rintro pkt rel channel priority clock rfl hcheck hs
  exact (hop hs).resolve_left (not_not_intro hcheck)

theorem emitted_encodable {start : Instant} {m : ManagedSession F} (h : m.inner.FramesEncodable) {op : Op}
    {o : OutgoingDatagram} (ho : o ∈ m.emitted start op) : ∀ p ∈ o.asRef.packets, p.Encodable := by
  cases op with
  | buildDatagram now =>
    refine (Session.framesEncodable_iff.1 h).built (?_ : (m.inner.buildDataDatagram now).1 = some o)
    rw [emitted, Option.mem_toList, buildDatagram] at ho
    split at ho
    · cases ho
    · rename_i dgram inner hb
      rw [hb]; exact ho
  | onTick now iter =>
    have hbefore : (m.beforeTick start now).inner.FramesEncodable :=
      Machine.Reach.inv (m.beforeTick_inner handlerOp_notSequenced start now) (fun s op hp hs => hs.step op hp) h
    rw [emitted, (m.onTick_eq start now iter).1] at ho
    obtain hnot | htracked := Session.onTick_data ho
    · rw [Datagram.packets_of_not_isData hnot]
      simp
    · exact hbefore.tracked _ htracked
  | _ => cases ho

/-- In every run that queues no packet with a sequenced reliability, every datagram that is put out
is encoded without error. -/
theorem emitted_encode_ok (start : Instant) (peer : SocketAddr) (mtu : Nat) (now : Instant) (config : SessionConfig)
    (ops : List Op)
    (h : Machine.Along (step start) QueuesNoSequenced (withConfig peer mtu now config : ManagedSession F)
      ops) (op : Op) :
    ∀ o ∈ (Machine.run (step start) (withConfig peer mtu now config : ManagedSession F) ops).emitted start op,
      ∃ bytes, o.encode = .ok bytes := by
  intro o ho
  refine Datagram.encode_ok (emitted_encodable ?_ ho)
  exact Machine.run_inv (P := fun m => m.inner.FramesEncodable) (fun _ _ hp hc => framesEncodable_step hp hc) ops
    (Session.FramesEncodable.new mtu config.session) h

/-- A `NewIncomingConnection`, the packet that connects a server session. -/
def connecting : Datagram :=
  ⟨⟨.valid, Sequence24.new 0⟩, .encapsulatedPackets [Session.singleEncap
    (0x13 :: NewIncomingConnection.encode ⟨.loopbackV4, defaultSystemAddresses .loopbackV4, 0, 0⟩)
    .reliable 0 (some (Sequence24.new 0)) none]⟩

/-- A session is connected, and one packet of user data is queued. -/
def oneMessage (rel : Reliability) : List Op :=
  [.handleDatagram connecting 0, .queueAppPacket (.userData 0x80 [1]) rel 0 .normal 0]

theorem emitted_encode_ok_ordered :
    Machine.Along (step 0) QueuesNoSequenced (withConfig .loopbackV4 1400 0 { role := .server } : ManagedSession ℚ)
      (oneMessage .reliableOrdered) ∧
    ∀ o ∈ (Machine.run (step 0) (withConfig .loopbackV4 1400 0 { role := .server } : ManagedSession ℚ)
      (oneMessage .reliableOrdered)).emitted 0 (.buildDatagram 0), ∃ bytes, o.encode = .ok bytes :=
  have halong :
    Machine.Along (step 0) QueuesNoSequenced (withConfig .loopbackV4 1400 0 { role := .server } : ManagedSession ℚ)
      (oneMessage .reliableOrdered) := ⟨trivial, fun h => absurd h (by decide), trivial⟩
  ⟨halong,
    emitted_encode_ok 0 .loopbackV4 1400 0 { role := .server } (oneMessage .reliableOrdered) halong (.buildDatagram 0)⟩

/-- With the reliability that user data has by default, the next datagram cannot be encoded. -/
theorem emitted_encode_fails_sequenced : ¬ ∀ (start : Instant) (peer : SocketAddr) (mtu : Nat) (now : Instant)
    (config : SessionConfig) (ops : List Op) (op : Op), 576 ≤ mtu → mtu ≤ 1400 →
    (∀ pkt rel channel priority clock, .queueAppPacket pkt rel channel priority clock ∈ ops →
      channel.toNat < config.session.maxOrderingChannels) →
    ∀ o ∈ (Machine.run (step start) (withConfig peer mtu now config : ManagedSession ℚ) ops).emitted start op,
      ∃ bytes, o.encode = .ok bytes := by
  intro h
  have hout : ((Machine.run (step 0) (withConfig .loopbackV4 1400 0 { role := .server } : ManagedSession ℚ)
      (oneMessage .unreliableSequenced)).emitted 0 (.buildDatagram 0)).map OutgoingDatagram.encode =
      [.error .missingSequenceIndex] := by decide +kernel
  have hencodes := h 0 .loopbackV4 1400 0 { role := .server } (oneMessage .unreliableSequenced) (.buildDatagram 0)
    (by decide) (by decide)
    (by
      simp only [oneMessage, List.mem_cons, List.not_mem_nil, or_false, reduceCtorEq, false_or, Op.queueAppPacket.injEq]
      rintro pkt rel channel priority clock ⟨-, -, rfl, -, -⟩
      decide)
  obtain ⟨o, ho, herr⟩ := List.mem_map.1 (hout ▸ List.mem_singleton_self _)
  obtain ⟨bytes, hok⟩ := hencodes o ho
  rw [hok] at herr; cases herr

end ManagedSession

end BedrockRs.Raknet
