/-
The count of queued reliable bytes. A managed session adds to it what queueing a packet returns and takes
from it the size of each reliable frame of a datagram it builds. Both are told by the outgoing heap: while
the reliable frames in the heap have no more bytes than a `usize` can say, the count is their bytes, in
every run; and the queue limit closes the session exactly when these bytes are over the limit.
-/
import BedrockRs.Raknet.Session.Lifecycle
import BedrockRs.Raknet.Session.OutboundSpec

namespace BedrockRs.Raknet

open Lib

namespace Session

variable {F : Type}

/-! ## The backlog -/

/-- What a frame adds to the count. -/
def reliableSize (p : EncapsulatedPacket) : Nat := if p.header.reliability.isReliable then p.size else 0

/-- The bytes of the reliable frames. -/
def reliableBytes (frames : List EncapsulatedPacket) : Nat :=
  ((frames.filter fun p => p.header.reliability.isReliable).map EncapsulatedPacket.size).sum

/-- The bytes of the reliable frames in the outgoing heap. -/
def reliableBacklog (s : Session F) : Nat := reliableBytes (s.outgoingHeap.data.map QueuedEncap.pkt)

@[simp] theorem reliableBytes_nil : reliableBytes [] = 0 := rfl

@[simp] theorem reliableBytes_cons (p : EncapsulatedPacket) (frames : List EncapsulatedPacket) :
    reliableBytes (p :: frames) = reliableSize p + reliableBytes frames := by
  unfold reliableBytes reliableSize
  by_cases hp : p.header.reliability.isReliable = true <;> simp [hp]

theorem reliableBytes_append (as bs : List EncapsulatedPacket) :
    reliableBytes (as ++ bs) = reliableBytes as + reliableBytes bs := by
  unfold reliableBytes
  rw [List.filter_append, List.map_append, List.sum_append]

theorem reliableBytes_perm {as bs : List EncapsulatedPacket} (h : as.Perm bs) : reliableBytes as = reliableBytes bs :=
  ((h.filter _).map _).sum_eq

theorem reliableBacklog_of_heap {s s' : Session F} (h : s'.outgoingHeap = s.outgoingHeap) :
    s'.reliableBacklog = s.reliableBacklog := by
  unfold reliableBacklog
  rw [h]

/-! ## Queueing -/

theorem pushOutgoingEncap_backlog (s : Session F) (pkt : EncapsulatedPacket) (priority : RakPriority) :
    (s.pushOutgoingEncap pkt priority).reliableBacklog = reliableSize pkt + s.reliableBacklog := by
  unfold reliableBacklog
  rw [reliableBytes_perm (s.pushOutgoingEncap_heap pkt priority), reliableBytes_cons]

theorem enqueueFragments_backlog (reliability : Reliability) (channel : UInt8) (orderingIndex : Option Sequence24)
    (splitId : UInt16) (parts : Nat) (priority : RakPriority) : ∀ (pieces : List Bytes) (i bytes : Nat) (s : Session F),
    (enqueueFragments reliability channel orderingIndex splitId parts priority i pieces bytes s).1 + s.reliableBacklog =
      bytes +
      (enqueueFragments reliability channel orderingIndex splitId parts priority i pieces bytes s).2.reliableBacklog
  | [], _, _, _ => rfl
  | piece :: rest, i, bytes, s => by
    unfold enqueueFragments
    rw [allocReliableIndex_eq]
    dsimp only
    generalize hframe :
      fragmentEncap piece reliability channel (reliableIndexFrom reliability s.reliabilityWriteIndex 0)
      orderingIndex ⟨UInt32.ofNat parts, splitId, UInt32.ofNat i⟩ = frame
    have hbytes : (if reliability.isReliable then bytes + frame.size else bytes) = bytes + reliableSize frame := by
      subst hframe
      unfold reliableSize
      show (if reliability.isReliable then _ else _) = bytes + if reliability.isReliable then _ else _
      split <;> rfl
    generalize hpushed :
      pushOutgoingEncap { s with reliabilityWriteIndex := writeAfter reliability s.reliabilityWriteIndex 1 }
      frame priority = pushed
    have hpush : pushed.reliableBacklog = reliableSize frame + s.reliableBacklog := by
      subst hpushed
      exact pushOutgoingEncap_backlog _ frame priority
    have ih := enqueueFragments_backlog reliability channel orderingIndex splitId parts priority rest (i + 1)
      (bytes + reliableSize frame) pushed
    rw [hbytes]
    omega

theorem allocOrderingIndex_backlog (s : Session F) (reliability : Reliability) (channel : UInt8) :
    (s.allocOrderingIndex reliability channel).2.reliableBacklog = s.reliableBacklog := by
  rw [allocOrderingIndex_counters]
  rfl

theorem enqueueSingleEncap_backlog (s : Session F) (payload : Bytes) (reliability : Reliability) (channel : UInt8)
    (priority : RakPriority) : (s.enqueueSingleEncap payload reliability channel priority).1 + s.reliableBacklog =
      (s.enqueueSingleEncap payload reliability channel priority).2.reliableBacklog := by
  have halloc := s.allocOrderingIndex_backlog reliability channel
  unfold enqueueSingleEncap
  generalize s.allocOrderingIndex reliability channel = alloc at halloc ⊢
  obtain ⟨orderingIndex, s'⟩ := alloc
  dsimp only at halloc ⊢
  rw [allocReliableIndex_eq]
  dsimp only
  rw [pushOutgoingEncap_backlog, ← halloc]
  rfl

theorem enqueueFragmentedEncaps_backlog (s : Session F) (payload : Bytes) (reliability : Reliability) (channel : UInt8)
    (priority : RakPriority) : (s.enqueueFragmentedEncaps payload reliability channel priority).1 + s.reliableBacklog =
      (s.enqueueFragmentedEncaps payload reliability channel priority).2.reliableBacklog := by
  unfold enqueueFragmentedEncaps
  dsimp only
  have halloc := ({ s with splitIndex := s.splitIndex + 1 } : Session F).allocOrderingIndex_backlog
    (normalizeReliabilityForSplit reliability) channel
  generalize ({ s with splitIndex := s.splitIndex + 1 } : Session F).allocOrderingIndex
    (normalizeReliabilityForSplit reliability)
    channel = alloc at halloc ⊢
  obtain ⟨orderingIndex, s'⟩ := alloc
  dsimp only at halloc ⊢
  have hloop := enqueueFragments_backlog (normalizeReliabilityForSplit reliability) channel orderingIndex s.splitIndex
    ((payload.length - 1) / max (s.maxEncapsulatedPayloadLen (normalizeReliabilityForSplit reliability) true) 1 + 1)
      priority
    (chunks (max (s.maxEncapsulatedPayloadLen (normalizeReliabilityForSplit reliability) true) 1)
      ((payload.length - 1) / max (s.maxEncapsulatedPayloadLen (normalizeReliabilityForSplit reliability) true) 1 + 1)
      payload)
    0 0 s'
  rw [halloc, Nat.zero_add] at hloop
  exact hloop

/-- What queueing a packet returns is what the heap gains. -/
theorem queuePacket_backlog (s : Session F) (pkt : RaknetPacket) (reliability : Reliability) (channel : UInt8)
    (priority : RakPriority) : (s.queuePacket pkt reliability channel priority).1 + s.reliableBacklog =
      (s.queuePacket pkt reliability channel priority).2.reliableBacklog := by
  unfold queuePacket
  split
  · exact Nat.zero_add _
  · split
    · exact Nat.zero_add _
    · dsimp only
      split
      · exact s.enqueueSingleEncap_backlog _ reliability channel priority
      · exact s.enqueueFragmentedEncaps_backlog _ reliability channel priority

/-! ## What leaves the heap as it is -/

theorem handleDataPayload_backlog (s : Session F) (packets : List EncapsulatedPacket) (now : Instant) :
    (s.handleDataPayload packets now).2.reliableBacklog = s.reliableBacklog := by
  obtain ⟨_, _, _, _, _, h⟩ := handleDataPayload_same packets s now
  exact reliableBacklog_of_heap (by rw [h])

theorem processDatagramSequence_backlog (s : Session F) (seq : Sequence24) :
    (s.processDatagramSequence seq).reliableBacklog = s.reliableBacklog := by
  obtain ⟨_, _, h⟩ := s.processDatagramSequence_frame seq
  exact reliableBacklog_of_heap (by rw [h])

variable [Float64 F]

theorem onTick_backlog (s : Session F) (now : Instant) (iter : IterOrder SplitEntries.Item) :
    (s.onTick now iter).2.reliableBacklog = s.reliableBacklog := by
  obtain ⟨_, _, htick⟩ := s.onTick_state now iter
  obtain ⟨_, _, _, hafter⟩ := s.afterResends_frame now iter
  rw [htick, hafter]
  rfl

end Session

namespace ManagedSession

variable {F : Type}

/-! ## The count -/

/-- The count is the backlog, if the backlog fits into a `usize`. -/
def Accounted (m : ManagedSession F) : Prop :=
  m.inner.reliableBacklog ≤ 2 ^ 64 - 1 → m.queuedReliableBytes = m.inner.reliableBacklog

/-- Queueing adds the bytes it puts into the heap. -/
theorem Accounted.queueInner {m : ManagedSession F} (h : m.Accounted) (pkt : RaknetPacket) (rel : Reliability)
    (channel : UInt8) (priority : RakPriority) : (m.queueInner pkt rel channel priority).Accounted := by
  intro hfits
  have hadded := m.inner.queuePacket_backlog pkt rel channel priority
  unfold ManagedSession.queueInner saturatingAdd at *
  dsimp only at *
  rw [h (by omega)]
  omega

theorem Accounted.queueControlPacket {m : ManagedSession F} (h : m.Accounted) (pkt : RaknetPacket) (rel : Reliability)
    (channel : UInt8) (priority : RakPriority) : (m.queueControlPacket pkt rel channel priority).Accounted := by
  unfold ManagedSession.queueControlPacket
  split
  · exact h
  · exact h.queueInner pkt rel channel priority

theorem Accounted.queueAppPacket {m : ManagedSession F} (h : m.Accounted) (pkt : RaknetPacket) (rel : Reliability)
    (channel : UInt8) (priority : RakPriority) (clock : Instant) :
    (m.queueAppPacket pkt rel channel priority clock).2.Accounted := by
  unfold ManagedSession.queueAppPacket
  split
  · exact h
  · exact h.queueInner pkt rel channel priority

theorem Accounted.sendDisconnect {m : ManagedSession F} (h : m.Accounted) (reason : DisconnectReason) :
    (m.sendDisconnect reason).2.Accounted := by
  unfold ManagedSession.sendDisconnect
  split
  · exact h
  · exact h.queueControlPacket _ .reliable 0 .immediate

theorem Accounted.closeWith {m : ManagedSession F} (h : m.Accounted) (reason : DisconnectReason) :
    (m.closeWith reason).Accounted :=
  h.sendDisconnect reason

theorem Accounted.startClientHandshake {m : ManagedSession F} (h : m.Accounted) (start : Instant) (serverGuid : UInt64)
    (now : Instant) (secure : Bool) : (m.startClientHandshake start serverGuid now secure).2.Accounted := by
  unfold ManagedSession.startClientHandshake
  split
  · exact h
  · split
    · exact h
    · refine Accounted.queueControlPacket ?_ _ .reliable 0 .immediate
      exact h

theorem Accounted.handleControlPacket {m : ManagedSession F} (h : m.Accounted) (start : Instant) (pkt : RaknetPacket)
    (now : Instant) : (m.handleControlPacket start pkt now).Accounted := by
  -- a handler queues a control packet or nothing, and touches no other field of the account
  cases pkt with
  | connectionRequest req =>
    simp only [ManagedSession.handleControlPacket, handleConnectionRequest]
    split
    · exact h
    · refine Accounted.queueControlPacket ?_ _ .unreliable 0 .immediate
      exact h
  | connectionRequestAccepted acc =>
    simp only [ManagedSession.handleControlPacket, handleConnectionRequestAccepted]
    split
    · exact h
    · refine Accounted.queueControlPacket (m := { m with
        state := .onlineHandshake, lastActivity := now, lastPongReceived := now }) ?_ _ .reliableOrdered 0 .immediate
      exact h
  | connectedPing ping =>
    refine Accounted.queueControlPacket (m := { m with lastActivity := now }) ?_ _ .unreliable 0 .immediate
    exact h
  | connectedPong pong =>
    simp only [ManagedSession.handleControlPacket, handleConnectedPong]
    split <;> exact h
  | connectionRequestFailed _ => exact h
  | newIncomingConnection _ => exact h
  | disconnectionNotification _ => exact h
  | _ =>
    simp only [ManagedSession.handleControlPacket]
    rw [handleGenericControlStates_of_none rfl rfl]
    exact h

theorem Accounted.handleControlPackets (start now : Instant) :
    ∀ (pkts : List IncomingPacket) {m : ManagedSession F}, m.Accounted →
      (pkts.foldl (fun m pkt => m.handleControlPacket start pkt.packet now) m).Accounted
  | [], _, h => h
  | pkt :: pkts, _, h => handleControlPackets start now pkts (h.handleControlPacket start pkt.packet now)

theorem Accounted.handleDatagram {m : ManagedSession F} (h : m.Accounted) (start : Instant) (dgram : Datagram)
    (now : Instant) : (m.handleDatagram start dgram now).2.Accounted := by
  by_cases hclosed : m.state = .closed
  · rwa [handleDatagram_closed start hclosed]
  · rw [ManagedSession.handleDatagram, if_neg hclosed]
    obtain ⟨header, payload⟩ := dgram
    cases payload with
    | ack payload => exact h
    | nak payload => exact h
    | encapsulatedPackets packets =>
      have hbacklog := m.inner.handleDataPayload_backlog packets now
      dsimp only
      cases hres : m.inner.handleDataPayload packets now with
      | mk res inner =>
        rw [hres] at hbacklog
        cases res with
        | error e =>
          show inner.reliableBacklog ≤ _ → m.queuedReliableBytes = inner.reliableBacklog
          rwa [hbacklog]
        | ok pkts =>
          refine handleControlPackets start now pkts ?_
          show (inner.processDatagramSequence header.sequence).reliableBacklog ≤ _ →
            m.queuedReliableBytes = (inner.processDatagramSequence header.sequence).reliableBacklog
          rw [Session.processDatagramSequence_backlog, hbacklog]
          exact h

/-- Frames whose bytes are in the count are taken from it exactly: no subtraction is cut off at zero. -/
theorem debitReliableBytes_queued {m : ManagedSession F} {frames : List EncapsulatedPacket} {rest : Nat}
    (h : m.queuedReliableBytes = Session.reliableBytes frames + rest) :
    (m.debitReliableBytes frames).queuedReliableBytes = rest := by
  unfold debitReliableBytes
  dsimp only
  generalize m.queuedReliableBytes = bytes at h
  induction frames generalizing bytes with
  | nil => exact h.trans (Nat.zero_add rest)
  | cons frame frames ih =>
    rw [Session.reliableBytes_cons, Session.reliableSize] at h
    rw [List.foldl_cons]
    apply ih
    by_cases hreliable : frame.header.reliability.isReliable = true
    · rw [if_pos hreliable] at h ⊢
      omega
    · rw [if_neg hreliable] at h ⊢
      omega

section Run

variable [Float64 F]

/-- A datagram takes from the count what it takes from the heap, which the count must have. -/
theorem Accounted.buildDatagram {m : ManagedSession F} (h : m.queuedReliableBytes = m.inner.reliableBacklog)
    (now : Instant) : (m.buildDatagram now).2.queuedReliableBytes = (m.buildDatagram now).2.inner.reliableBacklog := by
  obtain ⟨frames, hheap, hout, -⟩ := m.inner.buildDataDatagram_spec now
  have hsplit := Session.reliableBytes_perm hheap
  rw [Session.reliableBytes_append] at hsplit
  unfold ManagedSession.buildDatagram
  generalize m.inner.buildDataDatagram now = built at hheap hout hsplit ⊢
  obtain ⟨out, inner⟩ := built
  rcases hout with ⟨hnone, hframes⟩ | ⟨o, hsome, hpayload⟩
  · dsimp only at hnone hsplit ⊢
    subst hnone
    rw [hframes, Session.reliableBytes_nil, Nat.zero_add] at hsplit
    exact h.trans hsplit
  · dsimp only at hsome hsplit ⊢
    subst hsome
    dsimp only
    rw [hpayload]
    exact debitReliableBytes_queued (h.trans hsplit)

/-! ## The tick -/

/-- The session that a tick checks against the queue limit. -/
def atQueueLimit (start : Instant) (m : ManagedSession F) (now : Instant) : ManagedSession F :=
  if (m.checkIdle now).shouldSendPing now then (m.checkIdle now).sendConnectedPing start now else m.checkIdle now

omit [Float64 F] in
theorem beforeTick_eq (start : Instant) (m : ManagedSession F) (now : Instant) :
    m.beforeTick start now = (m.atQueueLimit start now).enforceQueueLimit := rfl

omit [Float64 F] in
theorem Accounted.atQueueLimit {m : ManagedSession F} (h : m.Accounted) (start now : Instant) :
    (m.atQueueLimit start now).Accounted := by
  have hidle : (m.checkIdle now).Accounted := by
    unfold checkIdle
    split
    · dsimp only
      split
      · exact h.closeWith _
      · split <;> exact h
    · exact h
  unfold ManagedSession.atQueueLimit
  split
  · exact hidle.queueControlPacket _ .unreliable 0 .immediate
  · exact hidle

omit [Float64 F] in
theorem Accounted.enforceQueueLimit {m : ManagedSession F} (h : m.Accounted) : m.enforceQueueLimit.Accounted := by
  unfold ManagedSession.enforceQueueLimit
  split
  · split
    · exact h.closeWith _
    · exact h
  · exact h

theorem onTick_backlog (start : Instant) (m : ManagedSession F) (now : Instant) (iter : IterOrder SplitEntries.Item) :
    (m.onTick start now iter).2.inner.reliableBacklog = (m.beforeTick start now).inner.reliableBacklog := by
  rw [(m.onTick_eq start now iter).2, Session.onTick_backlog]

theorem Accounted.onTick {m : ManagedSession F} (h : m.Accounted) (start now : Instant)
    (iter : IterOrder SplitEntries.Item) : (m.onTick start now iter).2.Accounted := by
  unfold Accounted
  rw [m.onTick_queued, m.onTick_backlog]
  exact (h.atQueueLimit start now).enforceQueueLimit

omit [Float64 F] in
theorem backlog_le_queueControlPacket (m : ManagedSession F) (pkt : RaknetPacket) (rel : Reliability) (channel : UInt8)
    (priority : RakPriority) :
    m.inner.reliableBacklog ≤ (m.queueControlPacket pkt rel channel priority).inner.reliableBacklog := by
  unfold queueControlPacket
  split
  · exact le_refl _
  · have hadded := m.inner.queuePacket_backlog pkt rel channel priority
    unfold queueInner
    dsimp only
    omega

omit [Float64 F] in
/-- Closing a session over its limit queues a notification and takes nothing from the heap. -/
theorem backlog_le_enforceQueueLimit (m : ManagedSession F) :
    m.inner.reliableBacklog ≤ m.enforceQueueLimit.inner.reliableBacklog := by
  have hclose : m.inner.reliableBacklog ≤ (m.closeWith .queueTooLong).inner.reliableBacklog := by
    show _ ≤ (m.sendDisconnect .queueTooLong).2.inner.reliableBacklog
    unfold sendDisconnect
    split
    · exact le_refl _
    · exact backlog_le_queueControlPacket _ _ .reliable 0 .immediate
  unfold enforceQueueLimit
  split
  · split
    · exact hclose
    · exact le_refl _
  · exact le_refl _

/-! ## Runs -/

/-- One call, from a state whose count is right. -/
theorem step_accounted (start : Instant) {m : ManagedSession F} (h : m.queuedReliableBytes = m.inner.reliableBacklog)
    (op : Op) : (m.step start op).Accounted := by
  have haccounted : m.Accounted := fun _ => h
  cases op with
  | queueAppPacket pkt rel channel priority clock => exact haccounted.queueAppPacket pkt rel channel priority clock
  | handleDatagram dgram now => exact haccounted.handleDatagram start dgram now
  | buildDatagram now => exact fun _ => Accounted.buildDatagram h now
  | onTick now iter => exact haccounted.onTick start now iter
  | startClientHandshake serverGuid now secure => exact haccounted.startClientHandshake start serverGuid now secure
  | sendDisconnect reason => exact haccounted.sendDisconnect reason

/-- In no state of the run are there more reliable bytes in the heap than a `usize` can say. -/
def BacklogFits (start : Instant) (m : ManagedSession F) (ops : List Op) : Prop :=
  ∀ earlier, earlier <+: ops → (Machine.run (step start) m earlier).inner.reliableBacklog ≤ 2 ^ 64 - 1

theorem run_accounted (start : Instant) {m : ManagedSession F} (h : m.queuedReliableBytes = m.inner.reliableBacklog)
    {ops : List Op} (hfits : BacklogFits start m ops) :
    (Machine.run (step start) m ops).queuedReliableBytes = (Machine.run (step start) m ops).inner.reliableBacklog := by
  induction ops using List.reverseRecOn with
  | nil => exact h
  | append_singleton ops op ih =>
    have hbefore := ih fun earlier hearlier => hfits earlier (hearlier.trans (List.prefix_append ops [op]))
    have hafter := hfits (ops ++ [op]) List.prefix_rfl
    rw [Machine.run_append, Machine.run_cons, Machine.run_nil] at hafter ⊢
    exact step_accounted start hbefore op hafter

/-- In every run the count is the bytes of the reliable frames in the heap, and at every tick the queue limit
closes the session if and only if these bytes are over the limit. -/
theorem queuedReliableBytes_eq_backlog (start : Instant) (peer : SocketAddr) (mtu : Nat) (now : Instant)
    (config : SessionConfig) (ops : List Op)
    (hfits : BacklogFits start (withConfig peer mtu now config : ManagedSession F) ops) :
    (Machine.run (step start) (withConfig peer mtu now config : ManagedSession F) ops).queuedReliableBytes =
      (Machine.run (step start) (withConfig peer mtu now config : ManagedSession F) ops).inner.reliableBacklog ∧
    ∀ earlier t iter later, ops = earlier ++ .onTick t iter :: later →
      let m :=
        (Machine.run (step start) (withConfig peer mtu now config : ManagedSession F) earlier).atQueueLimit start t
      m.queuedReliableBytes = m.inner.reliableBacklog ∧
        (∀ limit, m.config.maxQueuedReliableBytes = some limit →
          m.enforceQueueLimit = if m.inner.reliableBacklog > limit then m.closeWith .queueTooLong else m) ∧
        (m.config.maxQueuedReliableBytes = none → m.enforceQueueLimit = m) := by
  have hnew : (withConfig peer mtu now config : ManagedSession F).queuedReliableBytes =
      (withConfig peer mtu now config : ManagedSession F).inner.reliableBacklog := rfl
  constructor
  · exact run_accounted start hnew hfits
  · rintro earlier t iter later rfl m
    have hbefore := run_accounted start hnew fun done hdone => hfits done (hdone.trans (List.prefix_append _ _))
    -- the heap fits after the tick, which is after the ping that the account must hold with
    have hafter := hfits (earlier ++ [.onTick t iter]) ⟨later, by rw [List.append_assoc, List.singleton_append]⟩
    rw [Machine.run_append, Machine.run_cons, Machine.run_nil, step, onTick_backlog, beforeTick_eq] at hafter
    have haccounted :
      Accounted (Machine.run (step start) (withConfig peer mtu now config : ManagedSession F) earlier) :=
        fun _ => hbefore
    have hcount : m.queuedReliableBytes = m.inner.reliableBacklog :=
      haccounted.atQueueLimit start t ((backlog_le_enforceQueueLimit m).trans hafter)
    refine ⟨hcount, ?_, ?_⟩
    · intro limit hlimit
      unfold enforceQueueLimit
      rw [hlimit, hcount]
    · intro hlimit
      unfold enforceQueueLimit
      rw [hlimit]

/-- A client that asks for a connection and ticks. -/
theorem queuedReliableBytes_eq_backlog_handshake :
    (Machine.run (step 0) (withConfig .loopbackV4 1400 0 {} : ManagedSession ℚ)
        [.startClientHandshake 0 0 false, .onTick 0 (IterOrder.stored _)]).queuedReliableBytes =
      (Machine.run (step 0) (withConfig .loopbackV4 1400 0 {} : ManagedSession ℚ)
        [.startClientHandshake 0 0 false, .onTick 0 (IterOrder.stored _)]).inner.reliableBacklog := by
  refine (queuedReliableBytes_eq_backlog (F := ℚ) 0 .loopbackV4 1400 0 {}
    [.startClientHandshake 0 0 false, .onTick 0 (IterOrder.stored _)] ?_).1
  intro earlier hearlier
  have hall : ∀ ops ∈ List.inits [Op.startClientHandshake 0 0 false, .onTick 0 (IterOrder.stored _)],
      (Machine.run (step 0) (withConfig .loopbackV4 1400 0 {} : ManagedSession ℚ) ops).inner.reliableBacklog ≤
      2 ^ 64 - 1 := by
    decide +kernel
  exact hall earlier ((List.mem_inits _ _).2 hearlier)

end Run

end ManagedSession

end BedrockRs.Raknet
