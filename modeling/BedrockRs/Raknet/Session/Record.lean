/-
The record of a managed session, call by call: which packets it handles, and which it hands to the queue
of its inner session, for the application, as an answer, or of its own accord. Nothing else is ever
queued (`step_reach`), so what a session can have sent is told by its record.
-/
import BedrockRs.Raknet.Session.Lifecycle

namespace BedrockRs.Raknet.ManagedSession

open Lib

variable {F : Type} [Float64 F]

/-- One entry of the record. -/
inductive Entry
  | handled (pkt : RaknetPacket)
  | queued (pkt : RaknetPacket)
deriving DecidableEq

/-! ## What is queued -/

omit [Float64 F] in
/-- The answer to a packet that is handled. -/
def answer (start : Instant) (m : ManagedSession F) (now : Instant) : RaknetPacket → Option RaknetPacket
  | .connectionRequest req =>
    if m.config.role = .server then
      some (.connectionRequestAccepted
        ⟨m.peer, 47, defaultSystemAddresses m.peer, req.timestamp, currentRaknetTime start now⟩)
    else none
  | .connectionRequestAccepted acc =>
    if m.config.role = .client then
      some (.newIncomingConnection
        ⟨m.peer, defaultSystemAddresses m.peer, currentRaknetTime start now, acc.requestTimestamp⟩)
    else none
  | .connectedPing ping => some (.connectedPong ⟨ping.pingTime, currentRaknetTime start now⟩)
  | _ => none

/-- The notification a session queues when it is closed for a reason. -/
def farewell (reason : DisconnectReason) : RaknetPacket := .disconnectionNotification ⟨reason⟩

/-- What a tick queues: a notification when the session timed out, a ping when one is due, and a notification
when too much waits. -/
def tickPackets (start : Instant) (m : ManagedSession F) (now : Instant) : List RaknetPacket :=
  let checked := m.checkIdle now
  let pinged := if checked.shouldSendPing now then checked.sendConnectedPing start now else checked
  (if m.isConnected ∧ Instant.durationSince now m.lastActivity ≥ m.config.sessionTimeout then [farewell .timedOut]
    else []) ++ (if checked.shouldSendPing now then [.connectedPing ⟨currentRaknetTime start now⟩] else []) ++
      if pinged.state ≠ .closed ∧ pinged.config.maxQueuedReliableBytes.any (· < pinged.queuedReliableBytes)
      then [farewell .queueTooLong]
      else []

/-- What is recorded of a call. -/
def entries (start : Instant) (m : ManagedSession F) : Op → List Entry
  | .queueAppPacket pkt rel channel priority clock =>
    if (m.queueAppPacket pkt rel channel priority clock).1 = .ok () then [.queued pkt] else []
  | .handleDatagram dgram now =>
    (m.handledPackets dgram now).flatMap fun pkt => .handled pkt :: (m.answer start now pkt).toList.map .queued
  | .buildDatagram _ => []
  | .onTick now _ => (m.tickPackets start now).map .queued
  | .startClientHandshake serverGuid now secure =>
    if (m.startClientHandshake start serverGuid now secure).1 = .ok () then
      [.queued (.connectionRequest ⟨m.config.guid, currentRaknetTime start now, secure⟩)]
    else []
  | .sendDisconnect reason => if (m.sendDisconnect reason).1 = .ok () then [.queued (farewell reason)] else []

omit [Float64 F] in
/-- The inner session when a call has handled its payload, before it queues anything. -/
def received (m : ManagedSession F) : Op → Session F
  | .handleDatagram dgram now => if m.state = .closed then m.inner else (m.inner.handleDataPayload dgram.packets now).2
  | _ => m.inner

/-! ## Nothing else is queued -/

/-- An operation that queues packets of a set only, and handles no payload. -/
def QueuesOnly (P : RaknetPacket → Prop) : Session.Op → Prop
  | .queuePacket pkt _ _ _ => P pkt
  | .handleDataPayload .. => False
  | _ => True

section Queues

variable {P : RaknetPacket → Prop}

theorem queueControlPacket_reach {s : Session F} {m : ManagedSession F} {pkt : RaknetPacket} (hpkt : P pkt)
    (rel : Reliability) (channel : UInt8) (priority : RakPriority) (h : m.inner = s) :
    InnerReach (QueuesOnly P) s (m.queueControlPacket pkt rel channel priority).inner := by
  subst h
  unfold queueControlPacket
  split_ifs
  · exact .refl _
  · have hop : QueuesOnly P (.queuePacket pkt rel channel priority) := hpkt
    exact .single hop m.inner

omit [Float64 F] in
theorem queueControlPacket_peer (m : ManagedSession F) (pkt : RaknetPacket) (rel : Reliability) (channel : UInt8)
    (priority : RakPriority) : (m.queueControlPacket pkt rel channel priority).peer = m.peer := by
  unfold queueControlPacket
  split_ifs <;> rfl

omit [Float64 F] in
theorem handleControlPacket_peer (start : Instant) (m : ManagedSession F) (pkt : RaknetPacket) (now : Instant) :
    (m.handleControlPacket start pkt now).peer = m.peer := by
  cases pkt with
  | connectionRequest req =>
    simp only [handleControlPacket, handleConnectionRequest]
    split_ifs
    · rfl
    · exact queueControlPacket_peer ..
  | connectionRequestAccepted acc =>
    simp only [handleControlPacket, handleConnectionRequestAccepted]
    split_ifs
    · rfl
    · exact queueControlPacket_peer ..
  | connectedPing ping => exact queueControlPacket_peer ..
  | connectedPong pong =>
    simp only [handleControlPacket, handleConnectedPong]
    split_ifs <;> rfl
  | connectionRequestFailed _ | newIncomingConnection _ | disconnectionNotification _ => rfl
  | _ =>
    simp only [handleControlPacket]
    rw [handleGenericControlStates_of_none rfl rfl]

/-- Handling a packet queues its answer. -/
theorem handleControlPacket_reach (start : Instant) (m : ManagedSession F) (pkt : RaknetPacket) (now : Instant)
    (hanswer : ∀ pkt' ∈ m.answer start now pkt, P pkt') :
    InnerReach (QueuesOnly P) m.inner (m.handleControlPacket start pkt now).inner := by
  cases pkt with
  | connectionRequest req =>
    simp only [handleControlPacket, handleConnectionRequest]
    split_ifs with hrole
    · exact .refl _
    · refine queueControlPacket_reach (hanswer _ ?_) _ _ _ rfl
      rw [answer, if_pos (not_not.1 hrole), Option.mem_some_iff]
  | connectionRequestAccepted acc =>
    simp only [handleControlPacket, handleConnectionRequestAccepted]
    split_ifs with hrole
    · exact .refl _
    · refine queueControlPacket_reach (hanswer _ ?_) _ _ _ rfl
      rw [answer, if_pos (not_not.1 hrole), Option.mem_some_iff]
  | connectedPing ping => exact queueControlPacket_reach (hanswer _ rfl) _ _ _ rfl
  | connectedPong pong =>
    simp only [handleControlPacket, handleConnectedPong]
    split_ifs <;> exact .refl _
  | connectionRequestFailed _ | newIncomingConnection _ | disconnectionNotification _ => exact .refl _
  | _ =>
    simp only [handleControlPacket]
    rw [handleGenericControlStates_of_none rfl rfl]
    exact .refl _

omit [Float64 F] in
/-- An answer depends on nothing that handling a packet changes. -/
theorem answer_of_same {m m' : ManagedSession F} (hconfig : m'.config = m.config) (hpeer : m'.peer = m.peer)
    (start now : Instant) (pkt : RaknetPacket) : m'.answer start now pkt = m.answer start now pkt := by
  cases pkt <;> simp only [answer, hconfig, hpeer]

theorem handleControlPackets_reach (start now : Instant) {s : Session F} :
    ∀ (pkts : List IncomingPacket) (m : ManagedSession F), InnerReach (QueuesOnly P) s m.inner →
      (∀ p ∈ pkts, ∀ pkt ∈ m.answer start now p.packet, P pkt) →
    InnerReach (QueuesOnly P) s (pkts.foldl (fun m p => m.handleControlPacket start p.packet now) m).inner
  | [], _, hs, _ => hs
  | p :: pkts, m, hs, h => by
    have hsame :=
      answer_of_same (m.handleControlPacket_state start p.packet now).2 (m.handleControlPacket_peer start p.packet now)
      start now
    refine handleControlPackets_reach start now pkts _
      (hs.trans (m.handleControlPacket_reach start p.packet now (h p (List.mem_cons_self ..))))
        fun p' hp' pkt hpkt => ?_
    rw [hsame] at hpkt
    exact h p' (List.mem_cons_of_mem _ hp') pkt hpkt

theorem handleDatagram_reach (start : Instant) (m : ManagedSession F) (dgram : Datagram) (now : Instant)
    (hP : ∀ pkt ∈ m.handledPackets dgram now, ∀ pkt' ∈ m.answer start now pkt, P pkt') :
    InnerReach (QueuesOnly P) (m.received (.handleDatagram dgram now)) (m.handleDatagram start dgram now).2.inner := by
  unfold handledPackets at hP
  unfold received handleDatagram
  dsimp only
  by_cases hclosed : m.state = .closed
  · rw [if_pos hclosed, if_pos hclosed]
    exact .refl _
  · rw [if_neg hclosed, if_neg hclosed]
    rw [if_neg hclosed] at hP
    obtain ⟨header, payload⟩ := dgram
    cases payload with
    | ack payload =>
      have hop : QueuesOnly P (.handleAckPayload payload) := trivial
      exact .single hop m.inner
    | nak payload =>
      have hop : QueuesOnly P (.handleNackPayload payload) := trivial
      exact .single hop m.inner
    | encapsulatedPackets packets =>
      simp only [Datagram.packets] at hP ⊢
      cases hres : m.inner.handleDataPayload packets now with
      | mk res inner =>
        rw [hres] at hP
        cases res with
        | error e => exact .refl _
        | ok pkts =>
          have hsequence : QueuesOnly P (.processDatagramSequence header.sequence) := trivial
          dsimp only
          refine handleControlPackets_reach start now pkts _ (.single hsequence inner) fun p hp pkt hpkt => ?_
          exact hP p.packet (List.mem_map_of_mem hp) pkt hpkt

theorem sendDisconnect_reach (m : ManagedSession F) (reason : DisconnectReason)
    (h : m.state ≠ .closed → P (farewell reason)) :
    InnerReach (QueuesOnly P) m.inner (m.sendDisconnect reason).2.inner := by
  unfold sendDisconnect
  split_ifs with hclosed
  · exact .refl _
  · exact queueControlPacket_reach (h hclosed) _ _ _ rfl

theorem checkIdle_reach (m : ManagedSession F) (now : Instant)
    (h : m.isConnected = true → Instant.durationSince now m.lastActivity ≥ m.config.sessionTimeout →
      P (farewell .timedOut)) :
    InnerReach (QueuesOnly P) m.inner (m.checkIdle now).inner := by
  unfold checkIdle
  dsimp only
  split_ifs with hconnected htimeout
  · exact m.sendDisconnect_reach .timedOut fun _ => h hconnected htimeout
  · exact .refl _
  · exact .refl _
  · exact .refl _

theorem enforceQueueLimit_reach (m : ManagedSession F)
    (h : m.state ≠ .closed → m.config.maxQueuedReliableBytes.any (· < m.queuedReliableBytes) = true →
      P (farewell .queueTooLong)) :
    InnerReach (QueuesOnly P) m.inner m.enforceQueueLimit.inner := by
  unfold enforceQueueLimit
  split
  · rename_i limit hlimit
    rw [hlimit, Option.any_some, decide_eq_true_eq] at h
    split_ifs with hover
    · exact m.sendDisconnect_reach .queueTooLong fun hopen => h hopen hover
    · exact .refl _
  · exact .refl _

theorem beforeTick_reach (start : Instant) (m : ManagedSession F) (now : Instant)
    (hP : ∀ pkt ∈ m.tickPackets start now, P pkt) :
    InnerReach (QueuesOnly P) m.inner (m.beforeTick start now).inner := by
  unfold tickPackets at hP
  unfold beforeTick
  simp only [List.mem_append] at hP ⊢
  refine (m.checkIdle_reach now fun hconnected htimeout => ?_).trans
    (InnerReach.trans ?_ (enforceQueueLimit_reach _ fun hopen hover => ?_))
  · refine hP _ (.inl (.inl ?_))
    rw [if_pos ⟨hconnected, htimeout⟩]
    exact List.mem_singleton_self _
  · split_ifs with hping
    · refine queueControlPacket_reach (hP _ (.inl (.inr ?_))) _ _ _ rfl
      rw [if_pos hping]
      exact List.mem_singleton_self _
    · exact .refl _
  · refine hP _ (.inr ?_)
    rw [if_pos ⟨hopen, hover⟩]
    exact List.mem_singleton_self _

theorem buildDatagram_reach (m : ManagedSession F) (now : Instant) :
    InnerReach (QueuesOnly P) m.inner (m.buildDatagram now).2.inner := by
  have hbuild : (m.buildDatagram now).2.inner = m.inner.step (.buildDataDatagram now) := by
    unfold buildDatagram
    rw [Session.step]
    cases m.inner.buildDataDatagram now with
    | mk out inner =>
      cases out with
      | none => rfl
      | some dgram =>
        dsimp only
        split <;> rfl
  rw [hbuild]
  have hop : QueuesOnly P (.buildDataDatagram now) := trivial
  exact .single hop m.inner

/-- After its payload, a call queues what is recorded of it. -/
theorem step_reach (start : Instant) (m : ManagedSession F) (op : Op)
    (hP : ∀ pkt, .queued pkt ∈ m.entries start op → P pkt) :
    InnerReach (QueuesOnly P) (m.received op) (m.step start op).inner := by
  cases op with
  | queueAppPacket pkt rel channel priority clock =>
    cases hcheck : m.checkAppPacket pkt channel with
    | error e =>
      have hqueue : m.queueAppPacket pkt rel channel priority clock = (.error e, m) := by rw [queueAppPacket, hcheck]
      rw [step, hqueue]
      exact .refl _
    | ok _ =>
      have hqueue : m.queueAppPacket pkt rel channel priority clock =
          (.ok (), { m.queueInner pkt rel channel priority with lastActivity := clock }) := by
            rw [queueAppPacket, hcheck]
      rw [entries, hqueue, if_pos rfl] at hP
      rw [step, hqueue]
      have hop : QueuesOnly P (.queuePacket pkt rel channel priority) := hP pkt (List.mem_singleton_self _)
      exact .single hop m.inner
  | handleDatagram dgram now =>
    refine m.handleDatagram_reach start dgram now fun pkt hpkt pkt' hanswer =>
      hP pkt' (List.mem_flatMap.2 ⟨pkt, hpkt, ?_⟩)
    exact List.mem_cons_of_mem _ (List.mem_map_of_mem (Option.mem_toList.2 hanswer))
  | buildDatagram now => exact m.buildDatagram_reach now
  | onTick now iter =>
    rw [step, (m.onTick_eq start now iter).2]
    refine (m.beforeTick_reach start now fun pkt hpkt => hP pkt (List.mem_map_of_mem hpkt)).trans ?_
    have hop : QueuesOnly P (.onTick now iter) := trivial
    exact .single hop _
  | startClientHandshake serverGuid now secure =>
    rw [entries, startClientHandshake] at hP
    rw [step, startClientHandshake]
    by_cases hclosed : m.state = .closed
    · rw [if_pos hclosed]
      exact .refl _
    · rw [if_neg hclosed]
      rw [if_neg hclosed] at hP
      by_cases hrole : m.config.role ≠ .client
      · rw [if_pos hrole]
        exact .refl _
      · rw [if_neg hrole]
        rw [if_neg hrole, if_pos rfl] at hP
        exact queueControlPacket_reach (hP _ (List.mem_singleton_self _)) _ _ _ rfl
  | sendDisconnect reason =>
    refine m.sendDisconnect_reach reason fun hopen => hP _ ?_
    rw [entries, sendDisconnect, if_neg hopen]
    exact List.mem_singleton_self _

end Queues

end BedrockRs.Raknet.ManagedSession
