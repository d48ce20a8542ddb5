/-
The activity clock of a managed session. A datagram sets it to its own time and an accepted application
packet to the clock it reads; a tick leaves it alone. At a tick an idle session is closed only if it
is connected or stale, whatever else it may be waiting for; the queue limit is the other reason.
-/
import BedrockRs.Raknet.Session.Lifecycle

namespace BedrockRs.Raknet.ManagedSession

open Lib

variable {F : Type}

theorem queueControlPacket_activity (m : ManagedSession F) (pkt : RaknetPacket) (rel : Reliability) (channel : UInt8)
    (priority : RakPriority) : (m.queueControlPacket pkt rel channel priority).lastActivity = m.lastActivity := by
  unfold queueControlPacket
  split <;> rfl

theorem handleControlPacket_activity (start : Instant) (m : ManagedSession F) (pkt : RaknetPacket) (now : Instant) :
    (m.handleControlPacket start pkt now).lastActivity = m.lastActivity ∨
      (m.handleControlPacket start pkt now).lastActivity = now := by
  cases pkt with
  | connectionRequest req =>
    simp only [handleControlPacket, handleConnectionRequest]
    split
    · exact .inl rfl
    · exact .inr (queueControlPacket_activity _ _ _ _ _)
  | connectionRequestAccepted acc =>
    simp only [handleControlPacket, handleConnectionRequestAccepted]
    split
    · exact .inl rfl
    · exact .inr (queueControlPacket_activity _ _ _ _ _)
  | connectionRequestFailed _ => exact .inl rfl
  | newIncomingConnection _ => exact .inr rfl
  | disconnectionNotification _ => exact .inl rfl
  | connectedPing ping => exact .inr (queueControlPacket_activity _ _ _ _ _)
  | connectedPong pong =>
    simp only [handleControlPacket, handleConnectedPong]
    split <;> exact .inr rfl
  | _ =>
    simp only [handleControlPacket]
    rw [handleGenericControlStates_of_none rfl rfl]
    exact .inl rfl

theorem handleControlPackets_activity (start now : Instant) : ∀ (pkts : List IncomingPacket) (m : ManagedSession F),
    m.lastActivity = now → (pkts.foldl (fun m pkt => m.handleControlPacket start pkt.packet now) m).lastActivity = now
  | [], _, h => h
  | pkt :: pkts, m, h => by
    apply handleControlPackets_activity start now pkts
    rcases m.handleControlPacket_activity start pkt.packet now with hpkt | hpkt
    · exact hpkt.trans h
    · exact hpkt

theorem handleDatagram_activity (start : Instant) (m : ManagedSession F) (dgram : Datagram) (now : Instant) :
    (m.handleDatagram start dgram now).2.lastActivity = m.lastActivity ∨
      (m.handleDatagram start dgram now).2.lastActivity = now := by
  by_cases hclosed : m.state = .closed
  · rw [handleDatagram_closed start hclosed]
    exact .inl rfl
  · right
    rw [handleDatagram, if_neg hclosed]
    obtain ⟨header, payload⟩ := dgram
    cases payload with
    | ack payload => rfl
    | nak payload => rfl
    | encapsulatedPackets packets =>
      dsimp only
      cases m.inner.handleDataPayload packets now with
      | mk res inner =>
        cases res with
        | error e => rfl
        | ok pkts => exact handleControlPackets_activity start now pkts _ rfl

theorem queueAppPacket_activity (m : ManagedSession F) (pkt : RaknetPacket) (rel : Reliability) (channel : UInt8)
    (priority : RakPriority) (clock : Instant) :
    (m.queueAppPacket pkt rel channel priority clock).2.lastActivity = m.lastActivity ∨
      (m.queueAppPacket pkt rel channel priority clock).2.lastActivity = clock := by
  unfold queueAppPacket
  split
  · exact .inl rfl
  · exact .inr rfl

/-! ## The tick -/

theorem closeWith_activity (m : ManagedSession F) (reason : DisconnectReason) :
    (m.closeWith reason).lastActivity = m.lastActivity := by
  show (m.sendDisconnect reason).2.lastActivity = m.lastActivity
  unfold sendDisconnect
  split
  · rfl
  · exact queueControlPacket_activity _ _ _ _ _

theorem beforeTick_activity (start : Instant) (m : ManagedSession F) (now : Instant) :
    (m.beforeTick start now).lastActivity = m.lastActivity := by
  have hidle : (m.checkIdle now).lastActivity = m.lastActivity := by
    unfold checkIdle
    split
    · dsimp only
      split
      · exact m.closeWith_activity _
      · split <;> rfl
    · rfl
  have hlimit : ∀ m' : ManagedSession F, m'.enforceQueueLimit.lastActivity = m'.lastActivity := by
    intro m'
    unfold enforceQueueLimit
    split
    · split
      · exact m'.closeWith_activity _
      · rfl
    · rfl
  have hping : ∀ m' : ManagedSession F,
      (if m'.shouldSendPing now then m'.sendConnectedPing start now else m').lastActivity = m'.lastActivity := by
    intro m'
    split
    · exact queueControlPacket_activity _ _ _ _ _
    · rfl
  exact (hlimit _).trans ((hping _).trans hidle)

theorem onTick_activity [Float64 F] (start : Instant) (m : ManagedSession F) (now : Instant)
    (iter : IterOrder SplitEntries.Item) : (m.onTick start now iter).2.lastActivity = m.lastActivity := by
  unfold onTick
  exact m.beforeTick_activity start now

/-- A tick that finds the session idle for the timeout closes it exactly when it is connected or stale, was
closed already, or has more reliable bytes queued than it may. -/
theorem beforeTick_closed_iff (start : Instant) {m : ManagedSession F} {now : Instant}
    (hidle : m.lastActivity + m.config.sessionTimeout ≤ now) : (m.beforeTick start now).state = .closed ↔
      m.state = .connected ∨ m.state = .stale ∨ m.state = .closed ∨
        ∃ limit, m.config.maxQueuedReliableBytes = some limit ∧ limit < m.queuedReliableBytes := by
  cases hconn : m.isConnected with
  | true =>
    -- closed by the idle check, and nothing after it opens a session
    have hcheck : (m.checkIdle now).state = .closed :=
      checkIdle_closed_iff.2 (.inr ⟨hconn, Nat.le_sub_of_add_le' hidle⟩)
    refine iff_of_true ?_ ((isConnected_iff.1 hconn).elim .inl fun h => .inr (.inl h))
    exact enforceQueueLimit_closed_iff.2 (.inl ((pingIfDue_state start _ now).2.trans hcheck))
  | false =>
    have hnot := not_or.1 (isConnected_iff.not.1 (Bool.eq_false_iff.1 hconn))
    rw [beforeTick_of_not_connected hconn, enforceQueueLimit_closed_iff, or_iff_right hnot.1, or_iff_right hnot.2]

/-- Without a limit on queued bytes a tick closes a session only because it is connected and idle. -/
theorem beforeTick_closed_unlimited (start : Instant) {m : ManagedSession F} (now : Instant)
    (hlimit : m.config.maxQueuedReliableBytes = none) : (m.beforeTick start now).state = .closed ↔
      m.state = .closed ∨ m.isConnected = true ∧
      m.config.sessionTimeout ≤ Instant.durationSince now m.lastActivity := by
  -- no limit, so the last stage does nothing; neither of the others changes the configuration
  have hnone : (if (m.checkIdle now).shouldSendPing now then (m.checkIdle now).sendConnectedPing start now
      else m.checkIdle now).config.maxQueuedReliableBytes = none := by
    rw [(pingIfDue_state start _ now).1, (m.checkIdle_state now).1, hlimit]
  unfold beforeTick
  dsimp only
  rw [enforceQueueLimit_closed_iff, hnone, (pingIfDue_state start _ now).2, checkIdle_closed_iff]
  simp only [reduceCtorEq, false_and, exists_false, or_false]

end BedrockRs.Raknet.ManagedSession
