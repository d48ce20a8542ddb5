/-
The frames on their way out of a session: those that wait in the heap and those in the tracked
datagrams. A property of frames that queueing establishes, and a property of datagrams that building
establishes from it, hold of everything that is queued, tracked and put out, in every run; that is
`Outgoing` with its step lemma.
-/
import BedrockRs.Raknet.Session.OutboundSpec
import BedrockRs.Raknet.Session.Tracked

namespace BedrockRs.Raknet.Session

open Lib

variable {F : Type} [Float64 F]

/-! ## Tracked datagrams over a tick -/

omit [Float64 F] in
theorem some_mem_tracked {s : Session F} {d : Datagram} :
    some d ∈ s.tracked ↔ ∃ t, some t ∈ s.sentDatagrams ∧ t.datagram = d := by
  simp [tracked]

/-- ACKs and the cleanup only ever drop datagrams from the slots. -/
theorem mem_tracked_of_ackOne {now : Instant} {s : Session F} {seq : Sequence24} {d : Datagram}
    (h : some d ∈ (ackOne now s seq).tracked) : some d ∈ s.tracked := by
  obtain ⟨he, -⟩ | ⟨_, -, ht, -, -⟩ := ackOne_cases now s seq
  · rwa [he] at h
  · rw [ht] at h
    exact (List.mem_or_eq_of_mem_set h).resolve_right (by simp)

theorem mem_tracked_of_processed (now : Instant) {s : Session F} {d : Datagram}
    (h : some d ∈ ((s.applyAcks now).cleanSentDatagrams now).tracked) : some d ∈ s.tracked := by
  obtain ⟨dropped, n, heq, -⟩ := (s.applyAcks now).cleanSentDatagrams_eq now
  have hacks : some d ∈ (s.applyAcks now).tracked := by
    rw [heq]
    exact List.mem_append_left _ (List.mem_append_right _ h)
  have hfold : some d ∈ ((s.incomingAcks.flatMap SequenceRange.sequences).foldl (ackOne now) s).tracked := by
    rw [← SequenceRange.foldl_forEach]; exact hacks
  revert hfold
  refine List.foldlRecOn (motive := fun s' : Session F => some d ∈ s'.tracked → some d ∈ s.tracked) _ _ id ?_
  exact fun s' ih seq _ hs => ih (mem_tracked_of_ackOne hs)

/-- What a tick puts out was tracked, or is the ACK or NAK datagram it builds after its resends. -/
theorem onTick_out {s : Session F} {now : Instant} {iter : IterOrder SplitEntries.Item} {o : OutgoingDatagram}
    (h : o ∈ (s.onTick now iter).1) : some o.asRef ∈ s.tracked ∨ o ∈ (s.afterResends now iter).buildAckDatagram.1 ∨
      o ∈ (s.afterResends now iter).buildAckDatagram.2.buildNakDatagram.1 := by
  rw [onTick_eq, List.mem_append, List.mem_append, Option.mem_toList, Option.mem_toList] at h
  obtain (h | h) | h := h
  · left
    unfold resendDue at h
    simp only at h
    split at h
    · rw [resendDatagrams, resendLoop_out, List.mem_map] at h
      obtain ⟨d, hd, rfl⟩ := h
      obtain ⟨seq, -, hd⟩ := List.mem_filterMap.1 hd
      rw [trackedAt, Option.join_eq_some_iff] at hd
      refine mem_tracked_of_processed now ?_
      have hnak := processIncomingNaks_sameQueue ((s.applyAcks now).cleanSentDatagrams now) now
      rw [← hnak.1]
      exact List.mem_of_getElem? hd
    · cases h
  · exact .inr (.inl h)
  · exact .inr (.inr h)

/-- A DATA datagram that a tick puts out was tracked. -/
theorem onTick_data {s : Session F} {now : Instant} {iter : IterOrder SplitEntries.Item} {o : OutgoingDatagram}
    (h : o ∈ (s.onTick now iter).1) : o.asRef.isData = false ∨ some o.asRef ∈ s.tracked := by
  obtain h | h | h := onTick_out h
  · exact .inr h
  · exact .inl (buildAckDatagram_notData _ o h)
  · exact .inl (buildNakDatagram_notData _ o h)

/-! ## The invariant -/

/-- Every frame that waits in the heap satisfies `P`, every tracked datagram satisfies `Q`. -/
structure Outgoing (P : EncapsulatedPacket → Prop) (Q : Datagram → Prop) (s : Session F) : Prop where
  queued : ∀ p ∈ s.outgoingHeap.data.map QueuedEncap.pkt, P p
  tracked : ∀ d, some d ∈ s.tracked → Q d

namespace Outgoing

variable {P : EncapsulatedPacket → Prop} {Q : Datagram → Prop} {s : Session F}

theorem new (mtu : Nat) (tunables : SessionTunables) : Outgoing P Q (withTunables mtu tunables : Session F) :=
  ⟨fun p hp => by simp [withTunables, BinaryHeap.empty] at hp,
    fun d hd => by simp [Session.tracked, withTunables] at hd⟩

/-- The frames of a datagram that is built come from the heap. -/
theorem built (h : Outgoing P Q s) {now : Instant} {o : OutgoingDatagram} (ho : (s.buildDataDatagram now).1 = some o) :
    ∀ p ∈ o.asRef.packets, P p := by
  obtain ⟨frames, hheap, hout, -⟩ := s.buildDataDatagram_spec now
  intro p hp
  obtain ⟨hnone, -⟩ | ⟨o', ho', hframes⟩ := hout
  · rw [hnone] at ho; cases ho
  · rw [ho] at ho'
    cases ho'
    rw [Datagram.packets, hframes] at hp
    exact h.queued p (hheap.mem_iff.2 (List.mem_append_left _ hp))

omit [Float64 F] in
theorem queuePacket (h : Outgoing P Q s) {pkt : RaknetPacket} {reliability : Reliability} {channel : UInt8}
    (priority : RakPriority) (hm : ∀ m, s.message pkt reliability channel = some m → ∀ p ∈ m.frames, P p) :
    Outgoing P Q (s.queuePacket pkt reliability channel priority).2 := by
  cases hmsg : s.message pkt reliability channel with
  | none => rwa [queuePacket_of_none hmsg]
  | some m =>
    obtain ⟨_, _, _, _, _, _, hsame⟩ := s.queuePacket_same pkt reliability channel priority
    refine ⟨fun p hp => ?_, fun d hd => h.tracked d ?_⟩
    · rw [(queuePacket_spec hmsg priority).heap.mem_iff, List.mem_append] at hp
      exact hp.elim (hm m hmsg p) (h.queued p)
    · rw [hsame] at hd; exact hd

theorem buildDataDatagram (h : Outgoing P Q s) (now : Instant)
    (hq : ∀ o, (s.buildDataDatagram now).1 = some o → Q o.asRef) : Outgoing P Q (s.buildDataDatagram now).2 := by
  obtain ⟨frames, hheap, -, htrack⟩ := s.buildDataDatagram_spec now
  refine ⟨fun p hp => h.queued p (hheap.mem_iff.2 (List.mem_append_right _ hp)), fun d hd => ?_⟩
  obtain ⟨t, ht, rfl⟩ := some_mem_tracked.1 hd
  obtain ht | ⟨o, ho, ho'⟩ := htrack t ht
  · exact h.tracked _ (some_mem_tracked.2 ⟨t, ht, rfl⟩)
  · rw [ho']; exact hq o ho

theorem onTick (h : Outgoing P Q s) (now : Instant) (iter : IterOrder SplitEntries.Item) :
    Outgoing P Q (s.onTick now iter).2 := by
  obtain ⟨_, _, htick⟩ := s.onTick_state now iter
  obtain ⟨_, _, _, hafter⟩ := s.afterResends_frame now iter
  refine ⟨fun p hp => h.queued p ?_, fun d hd => h.tracked d (mem_tracked_of_processed now ?_)⟩
  · rw [htick, hafter] at hp; exact hp
  · rw [← (s.onTick_sameQueue now iter).1]; exact hd

/-- One operation: the frames of a message it queues must satisfy `P`, a datagram it builds `Q`. -/
theorem step (h : Outgoing P Q s) (op : Op)
    (hm : ∀ pkt reliability channel priority, op = .queuePacket pkt reliability channel priority →
      ∀ m, s.message pkt reliability channel = some m → ∀ p ∈ m.frames, P p)
    (hq : ∀ now o, (s.buildDataDatagram now).1 = some o → Q o.asRef) : Outgoing P Q (s.step op) := by
  cases op with
  | queuePacket pkt reliability channel priority => exact h.queuePacket priority (hm _ _ _ _ rfl)
  | buildDataDatagram now => exact h.buildDataDatagram now (hq now)
  | handleDataPayload packets now =>
    obtain ⟨_, _, _, _, _, e⟩ := handleDataPayload_same packets s now
    rw [Session.step, e]; exact ⟨h.queued, h.tracked⟩
  | processDatagramSequence seq =>
    obtain ⟨_, _, e⟩ := s.processDatagramSequence_frame seq
    rw [Session.step, e]; exact ⟨h.queued, h.tracked⟩
  | handleAckPayload payload => exact ⟨h.queued, h.tracked⟩
  | handleNackPayload payload => exact ⟨h.queued, h.tracked⟩
  | onTick now iter => exact h.onTick now iter

end Outgoing

end BedrockRs.Raknet.Session
