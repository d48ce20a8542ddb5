/-
The datagrams that a session has issued, and what becomes of them. As long as the sequence numbers have
not come round, the number of a datagram is its place among all that were built, so it tells the datagram
(`Issues`). A tracked datagram stays in its slot until a tick takes it out, because an ACK names its
number or because the cleanup gives it up (`tracked_onTick`).

A managed session does nothing else to its inner session: every call is at most one operation on
datagrams, and packets that it queues (`step_moved`).
-/
import BedrockRs.Raknet.Session.Accounting
import BedrockRs.Raknet.Session.Lifecycle
import BedrockRs.Raknet.Session.Outgoing

namespace BedrockRs.Raknet

open Lib

namespace Session

variable {F : Type} [Float64 F]

/-! ## Issued datagrams -/

/-- `built` are the datagrams that were built, in order: the number of each is its place. -/
structure Issues (built : List Datagram) (s : Session F) : Prop where
  queue : QueueInv s
  write : WriteInv built.length s
  numbered : ∀ (i : Nat) (d : Datagram), built[i]? = some d → d.isData = true ∧ d.header.sequence.val = i
  tracked : ∀ d, some d ∈ s.tracked → d ∈ built

namespace Issues

variable {built : List Datagram} {s : Session F}

theorem new (mtu : Nat) (tunables : SessionTunables) : Issues [] (withTunables mtu tunables : Session F) where
  queue := queueInv_after mtu tunables []
  write := ⟨rfl, Nat.le_refl 0⟩
  numbered := by simp
  tracked := by simp [Session.tracked, withTunables]

omit [Float64 F] in
theorem of_same (h : Issues built s) {s' : Session F} (hqueue : SameQueue s s')
    (hwrite : s'.datagramWriteIndex = s.datagramWriteIndex) : Issues built s' :=
  ⟨h.queue.of_same hqueue, h.write.of_same hqueue hwrite, h.numbered, fun d hd => h.tracked d (hqueue.1 ▸ hd)⟩

omit [Float64 F] in
/-- The number tells the datagram. -/
theorem inj (h : Issues built s) {d d' : Datagram} (hd : d ∈ built) (hd' : d' ∈ built)
    (hseq : d.header.sequence = d'.header.sequence) : d = d' := by
  obtain ⟨i, hi⟩ := List.mem_iff_getElem?.1 hd
  obtain ⟨j, hj⟩ := List.mem_iff_getElem?.1 hd'
  have hplace : i = j := by rw [← (h.numbered i d hi).2, ← (h.numbered j d' hj).2, hseq]
  rw [hplace, hj] at hi
  exact (Option.some.inj hi).symm

end Issues

/-- Whether a datagram asks for an acknowledgement. -/
def hasReliable (d : Datagram) : Bool := d.packets.any fun p => p.header.reliability.isReliable

/-- A datagram that is built gets the next number, and one with a reliable packet is tracked. -/
theorem buildDataDatagram_built {s : Session F} {now : Instant} {o : OutgoingDatagram}
    (h : (s.buildDataDatagram now).1 = some o) :
    o.asRef.isData = true ∧ o.asRef.header.sequence = s.datagramWriteIndex ∧
      (hasReliable o.asRef = true → some o.asRef ∈ (s.buildDataDatagram now).2.tracked) := by
  unfold buildDataDatagram at h ⊢
  split at h
  · cases h
  · rename_i hne
    simp only at h ⊢
    split at h
    · cases h
    · rename_i hbw
      split at h
      · cases h
      · rename_i hpackets
        rw [if_neg hne, if_neg hbw, if_neg hpackets]
        split at h
        · rename_i hreliable
          cases h
          refine ⟨rfl, rfl, fun _ => ?_⟩
          -- the slots have been extended to reach its own
          rw [if_pos hreliable]
          simp only [trackSentDatagram, tracked, setTracked, List.map_set, Option.map_some]
          refine List.mem_of_getElem? (List.getElem?_set_self ?_)
          rw [List.length_map, List.length_append, List.length_replicate]
          omega
        · rename_i hunreliable
          cases h
          exact ⟨rfl, rfl, fun hrel => absurd hrel hunreliable⟩

/-- What is tracked stays tracked when a datagram is built: the new one goes to a slot behind all slots. -/
theorem Issues.tracked_build {built : List Datagram} {s : Session F} (h : Issues built s) (now : Instant) {d : Datagram}
    (hd : some d ∈ s.tracked) : some d ∈ (s.buildDataDatagram now).2.tracked := by
  obtain ⟨hs, -⟩ | ⟨d', -, -, -, -, -, -, ht⟩ := s.buildDataDatagram_cases now
  · rw [hs.1]
    exact hd
  · obtain ⟨i, hi⟩ := List.mem_iff_getElem?.1 hd
    have hlt := (List.getElem?_eq_some_iff.1 hi).1
    have hbehind := h.write.distance.1
    rw [ht]
    refine List.mem_of_getElem? (i := i) ?_
    rw [List.getElem?_set_ne (by omega), List.getElem?_append_left hlt, hi]

theorem Issues.build {built : List Datagram} {s : Session F} (h : Issues built s) (now : Instant)
    (hn : built.length + ((s.buildDataDatagram now).1.toList).length < 2 ^ 24) :
    Issues (built ++ (s.buildDataDatagram now).1.toList.map OutgoingDatagram.asRef) (s.buildDataDatagram now).2 where
  queue := h.queue.buildDataDatagram now
  write := by
    rw [List.length_append, List.length_map]
    exact h.write.buildDataDatagram now hn
  numbered i d hi := by
    rcases Nat.lt_or_ge i built.length with hlt | hge
    · rw [List.getElem?_append_left hlt] at hi
      exact h.numbered i d hi
    · rw [List.getElem?_append_right hge] at hi
      cases hout : (s.buildDataDatagram now).1 with
      | none =>
        rw [hout] at hi
        cases hi
      | some o =>
        rw [hout] at hi
        obtain ⟨hone, rfl⟩ := List.getElem?_eq_some_iff.1 hi
        obtain ⟨hdata, hseq, -⟩ := buildDataDatagram_built hout
        have hfirst : i - built.length = 0 := Nat.lt_one_iff.1 hone
        simp only [hfirst, Option.toList_some, List.map_cons, List.map_nil, List.getElem_cons_zero]
        refine ⟨hdata, ?_⟩
        rw [hseq, h.write.write]
        omega
  tracked d hd := by
    obtain ⟨t, ht, rfl⟩ := some_mem_tracked.1 hd
    obtain ⟨-, -, -, htrack⟩ := s.buildDataDatagram_spec now
    rcases htrack t ht with ht | ⟨o, ho, hto⟩
    · exact List.mem_append_left _ (h.tracked _ (some_mem_tracked.2 ⟨t, ht, rfl⟩))
    · rw [ho, hto]
      exact List.mem_append_right _ (List.mem_singleton_self _)

/-- The tracked datagrams that a tick gives up: no ACK names them, but the cleanup drops them. -/
def gaveUp (s : Session F) (now : Instant) : List Datagram :=
  (s.applyAcks now).tracked.reduceOption.filter fun d => some d ∉ ((s.applyAcks now).cleanSentDatagrams now).tracked

theorem Issues.onTick {built : List Datagram} {s : Session F} (h : Issues built s) (now : Instant)
    (iter : IterOrder SplitEntries.Item) : Issues built (s.onTick now iter).2 where
  queue := ((h.queue.applyAcks now).cleanSentDatagrams now).of_same (s.onTick_sameQueue now iter)
  write := h.write.onTick h.queue now iter
  numbered := h.numbered
  tracked d hd := h.tracked d (mem_tracked_of_processed now ((s.onTick_sameQueue now iter).1 ▸ hd))

/-- A tracked datagram is still tracked after a tick, or an ACK names its number, or it is given up. -/
theorem QueueInv.tracked_onTick {s : Session F} (h : QueueInv s) (now : Instant) (iter : IterOrder SplitEntries.Item)
    {d : Datagram} (hd : some d ∈ s.tracked) : some d ∈ (s.onTick now iter).2.tracked ∨
      (∃ r ∈ s.incomingAcks, d.header.sequence ∈ r.sequences) ∨ d ∈ s.gaveUp now := by
  by_cases hacked : ∃ r ∈ s.incomingAcks, d.header.sequence ∈ r.sequences
  · exact .inr (.inl hacked)
  · have hkept : some d ∈ (s.applyAcks now).tracked := by
      obtain ⟨t, ht, rfl⟩ := some_mem_tracked.1 hd
      refine some_mem_tracked.2 ⟨t, ?_, rfl⟩
      rw [h.applyAcks_slots]
      refine List.mem_map.2 ⟨some t, ht, ?_⟩
      rw [Option.filter_some, if_pos]
      exact decide_eq_true fun r hr hseq => hacked ⟨r, hr, hseq⟩
    by_cases hclean : some d ∈ ((s.applyAcks now).cleanSentDatagrams now).tracked
    · left
      rw [(s.onTick_sameQueue now iter).1]
      exact hclean
    · right
      right
      refine List.mem_filter.2 ⟨List.reduceOption_mem_iff.2 hkept, decide_eq_true hclean⟩

end Session

/-! ## The calls of a managed session -/

namespace ManagedSession

open Session (SameButQueue)

variable {F : Type} [Float64 F]

omit [Float64 F] in
theorem queueControlPacket_same (m : ManagedSession F) (pkt : RaknetPacket) (rel : Reliability) (channel : UInt8)
    (priority : RakPriority) : SameButQueue m.inner (m.queueControlPacket pkt rel channel priority).inner := by
  unfold queueControlPacket
  split
  · exact .refl _
  · exact m.inner.queuePacket_same pkt rel channel priority

omit [Float64 F] in
theorem sendDisconnect_same (m : ManagedSession F) (reason : DisconnectReason) :
    SameButQueue m.inner (m.sendDisconnect reason).2.inner := by
  unfold sendDisconnect
  split
  · exact .refl _
  · exact m.queueControlPacket_same ..

omit [Float64 F] in
theorem startClientHandshake_same (start : Instant) (m : ManagedSession F) (serverGuid : UInt64) (now : Instant)
    (secure : Bool) : SameButQueue m.inner (m.startClientHandshake start serverGuid now secure).2.inner := by
  unfold startClientHandshake
  split
  · exact .refl _
  · split
    · exact .refl _
    · exact queueControlPacket_same ..

omit [Float64 F] in
theorem handleControlPacket_same (start : Instant) (m : ManagedSession F) (pkt : RaknetPacket) (now : Instant) :
    SameButQueue m.inner (m.handleControlPacket start pkt now).inner := by
  cases pkt with
  | connectionRequest req =>
    simp only [handleControlPacket, handleConnectionRequest]
    split
    · exact .refl _
    · exact queueControlPacket_same ..
  | connectionRequestAccepted acc =>
    simp only [handleControlPacket, handleConnectionRequestAccepted]
    split
    · exact .refl _
    · exact queueControlPacket_same ..
  | connectedPing ping => exact queueControlPacket_same ..
  | connectedPong pong =>
    simp only [handleControlPacket, handleConnectedPong]
    split <;> exact .refl _
  | connectionRequestFailed _ | newIncomingConnection _ | disconnectionNotification _ => exact .refl _
  | _ =>
    simp only [handleControlPacket]
    rw [handleGenericControlStates_of_none rfl rfl]
    exact .refl _

omit [Float64 F] in
theorem handleControlPackets_same (start now : Instant) : ∀ (pkts : List IncomingPacket) (m : ManagedSession F),
    SameButQueue m.inner (pkts.foldl (fun m pkt => m.handleControlPacket start pkt.packet now) m).inner
  | [], _ => .refl _
  | pkt :: pkts, m =>
    (m.handleControlPacket_same start pkt.packet now).trans (handleControlPackets_same start now pkts _)

omit [Float64 F] in
theorem beforeTick_same (start : Instant) (m : ManagedSession F) (now : Instant) :
    SameButQueue m.inner (m.beforeTick start now).inner := by
  have hidle : SameButQueue m.inner (m.checkIdle now).inner := by
    unfold checkIdle
    dsimp only
    split_ifs
    · exact m.sendDisconnect_same .timedOut
    · exact .refl _
    · exact .refl _
    · exact .refl _
  have hlimit : ∀ m : ManagedSession F, SameButQueue m.inner m.enforceQueueLimit.inner := by
    intro m
    unfold enforceQueueLimit
    split
    · split
      · exact m.sendDisconnect_same .queueTooLong
      · exact .refl _
    · exact .refl _
  unfold beforeTick
  refine hidle.trans (SameButQueue.trans ?_ (hlimit _))
  split
  · exact queueControlPacket_same ..
  · exact .refl _

omit [Float64 F] in
/-- The inner session when a datagram has been taken in, before any of its packets is answered. -/
def takenIn (s : Session F) (dgram : Datagram) (now : Instant) : Session F :=
  match dgram.payload with
  | .encapsulatedPackets packets =>
    match s.handleDataPayload packets now with
    | (.error _, s) => s
    | (.ok _, s) => s.processDatagramSequence dgram.header.sequence
  | .ack payload => s.handleAckPayload payload
  | .nak payload => s.handleNackPayload payload

omit [Float64 F] in
theorem takenIn_packets (s : Session F) (header : DatagramHeader) (packets : List EncapsulatedPacket) (now : Instant) :
    takenIn s ⟨header, .encapsulatedPackets packets⟩ now =
      if (s.handleDataPayload packets now).1.isOk = true then
        (s.handleDataPayload packets now).2.processDatagramSequence header.sequence
      else (s.handleDataPayload packets now).2 := by
  unfold takenIn
  dsimp only
  cases s.handleDataPayload packets now with
  | mk res s' => cases res <;> rfl

/-- The inner session of a call when it has done its operation on datagrams. -/
def moved (start : Instant) (m : ManagedSession F) : Op → Session F
  | .handleDatagram dgram now => if m.state = .closed then m.inner else takenIn m.inner dgram now
  | .buildDatagram now => (m.inner.buildDataDatagram now).2
  | .onTick now iter => ((m.beforeTick start now).inner.onTick now iter).2
  | _ => m.inner

omit [Float64 F] in
theorem handleDatagram_same (start : Instant) {m : ManagedSession F} (hopen : m.state ≠ .closed) (dgram : Datagram)
    (now : Instant) : SameButQueue (takenIn m.inner dgram now) (m.handleDatagram start dgram now).2.inner := by
  obtain ⟨header, payload⟩ := dgram
  unfold handleDatagram takenIn
  rw [if_neg hopen]
  cases payload with
  | ack payload => exact .refl _
  | nak payload => exact .refl _
  | encapsulatedPackets packets =>
    dsimp only
    cases m.inner.handleDataPayload packets now with
    | mk res inner =>
      cases res with
      | error e => exact .refl _
      | ok pkts =>
        dsimp only
        exact handleControlPackets_same start now pkts _

/-- Besides, a call only queues packets. -/
theorem step_moved (start : Instant) (m : ManagedSession F) (op : Op) :
    SameButQueue (m.moved start op) (m.step start op).inner := by
  cases op with
  | queueAppPacket pkt rel channel priority clock =>
    unfold step queueAppPacket
    dsimp only
    split
    · exact .refl _
    · exact m.inner.queuePacket_same pkt rel channel priority
  | handleDatagram dgram now =>
    unfold moved
    dsimp only
    split
    · rename_i hclosed
      rw [step, handleDatagram_closed start hclosed]
      exact .refl _
    · rename_i hopen
      exact handleDatagram_same start hopen dgram now
  | buildDatagram now =>
    rw [moved, step]
    unfold buildDatagram
    cases m.inner.buildDataDatagram now with
    | mk out inner =>
      cases out with
      | none => exact .refl _
      | some d =>
        dsimp only
        split <;> exact .refl _
  | onTick now iter =>
    rw [moved, step, (m.onTick_eq start now iter).2]
    exact .refl _
  | startClientHandshake serverGuid now secure => exact m.startClientHandshake_same start serverGuid now secure
  | sendDisconnect reason => exact m.sendDisconnect_same reason

theorem buildDatagram_out (m : ManagedSession F) (now : Instant) :
    (m.buildDatagram now).1 = (m.inner.buildDataDatagram now).1 := by
  unfold buildDatagram
  cases m.inner.buildDataDatagram now with
  | mk out inner => cases out <;> rfl

/-! ## The ledger of a session -/

/-- What happens to a datagram at one session: it is built, or handled without error, or given up. -/
inductive DatagramEvent
  | built (d : Datagram)
  | accepted (d : Datagram)
  | gaveUp (d : Datagram)
deriving DecidableEq

/-- The events of a call. -/
def datagramEvents (start : Instant) (m : ManagedSession F) : Op → List DatagramEvent
  | .buildDatagram now => (m.buildDatagram now).1.toList.map fun o => .built o.asRef
  | .handleDatagram dgram now =>
    if m.state ≠ .closed ∧ dgram.isData = true ∧ (m.handleDatagram start dgram now).1.isOk = true then [.accepted dgram]
      else []
  | .onTick now _ => ((m.beforeTick start now).inner.gaveUp now).map .gaveUp
  | _ => []

end ManagedSession

end BedrockRs.Raknet
