/-
The connection state over whole runs. Five kinds of control packet set the state, each to a fixed
value and most without looking at the state they find (`RaknetPacket.sets`); so the state after a
datagram is the one the last of them sets, and the state after a run is told by the handshake events
of the run. From this: exactly which steps take a session back in its lifecycle, and what must have
been handled before a session is connected.
-/
import BedrockRs.Raknet.Session.ManagedRuns

namespace BedrockRs.Raknet

open Lib

/-- The place of a state in the lifecycle. -/
def ConnectionState.rank : ConnectionState → Nat
  | unconnected => 0
  | onlineHandshake => 1
  | connected | stale => 2
  | closing => 3
  | closed => 4

/-- The state that handling a packet puts a session of this role in, if it sets one. -/
def RaknetPacket.sets (role : SessionRole) : RaknetPacket → Option ConnectionState
  | connectionRequest _ => if role = .server then some .onlineHandshake else none
  | connectionRequestAccepted _ => if role = .client then some .connected else none
  | newIncomingConnection _ => some .connected
  | connectionRequestFailed _ | disconnectionNotification _ => some .closed
  | _ => none

theorem ConnectionState.rank_eq_two_iff (st : ConnectionState) : st.rank = 2 ↔ st = .connected ∨ st = .stale := by
  cases st <;> decide

/-- A packet never makes a session stale. -/
theorem RaknetPacket.sets_ne_stale (role : SessionRole) (pkt : RaknetPacket) : pkt.sets role ≠ some .stale := by
  cases pkt <;> cases role <;> nofun

namespace ManagedSession

variable {F : Type} [Float64 F]

/-! ## What sets the state -/

omit [Float64 F] in
theorem queueControlPacket_state (m : ManagedSession F) (pkt : RaknetPacket) (rel : Reliability) (channel : UInt8)
    (priority : RakPriority) : (m.queueControlPacket pkt rel channel priority).state = m.state ∧
      (m.queueControlPacket pkt rel channel priority).config = m.config := by
  unfold queueControlPacket
  split <;> exact ⟨rfl, rfl⟩

omit [Float64 F] in
theorem handleGenericControlStates_of_none {m : ManagedSession F} {pkt : RaknetPacket}
    (he : pkt.isConnectionEstablished = false) (hc : pkt.isConnectionClosed = false) :
    m.handleGenericControlStates pkt = m := by
  unfold handleGenericControlStates
  simp only [he, hc, Bool.false_eq_true, if_false]
  split <;> rfl

omit [Float64 F] in
theorem handleControlPacket_state (start : Instant) (m : ManagedSession F) (pkt : RaknetPacket) (now : Instant) :
    (m.handleControlPacket start pkt now).state = (pkt.sets m.config.role).getD m.state ∧
      (m.handleControlPacket start pkt now).config = m.config := by
  cases pkt with
  | connectionRequest req =>
    simp only [handleControlPacket, handleConnectionRequest, RaknetPacket.sets]
    by_cases hr : m.config.role = .server
    · rw [if_neg (not_not_intro hr), if_pos hr]
      exact queueControlPacket_state _ _ _ _ _
    · rw [if_pos hr, if_neg hr]
      exact ⟨rfl, rfl⟩
  | connectionRequestAccepted acc =>
    simp only [handleControlPacket, handleConnectionRequestAccepted, RaknetPacket.sets]
    by_cases hr : m.config.role = .client
    · rw [if_neg (not_not_intro hr), if_pos hr]
      exact ⟨rfl, (queueControlPacket_state _ _ _ _ _).2⟩
    · rw [if_pos hr, if_neg hr]
      exact ⟨rfl, rfl⟩
  | connectionRequestFailed _ => exact ⟨rfl, rfl⟩
  | newIncomingConnection _ => exact ⟨rfl, rfl⟩
  | disconnectionNotification _ => exact ⟨rfl, rfl⟩
  | connectedPing ping => exact queueControlPacket_state _ _ _ _ _
  | connectedPong pong =>
    simp only [handleControlPacket, handleConnectedPong]
    split <;> exact ⟨rfl, rfl⟩
  | _ =>
    simp only [handleControlPacket]
    rw [handleGenericControlStates_of_none rfl rfl]
    exact ⟨rfl, rfl⟩

omit [Float64 F] in
/-- After a list of control packets the session is in the state that the last setting one sets. -/
theorem handleControlPackets_state (start now : Instant) : ∀ (pkts : List IncomingPacket) (m : ManagedSession F),
    let m' := pkts.foldl (fun m pkt => m.handleControlPacket start pkt.packet now) m
    m'.state = (((pkts.map IncomingPacket.packet).filterMap (RaknetPacket.sets m.config.role)).getLast?).getD m.state ∧
      m'.config = m.config
  | [], m => ⟨rfl, rfl⟩
  | pkt :: pkts, m => by
    obtain ⟨hs, hc⟩ := m.handleControlPacket_state start pkt.packet now
    obtain ⟨ihs, ihc⟩ := handleControlPackets_state start now pkts (m.handleControlPacket start pkt.packet now)
    simp only [List.foldl_cons, List.map_cons] at ihs ihc ⊢
    refine ⟨?_, ihc.trans hc⟩
    rw [ihs, hc, hs]
    cases hset : pkt.packet.sets m.config.role with
    | none => rw [List.filterMap_cons_none hset]; rfl
    | some st =>
      rw [List.filterMap_cons_some hset, List.getLast?_cons]
      rfl

omit [Float64 F] in
/-- The packets of a datagram that are handled as control packets: all that the session decodes from
it, unless it is closed or the payload fails. -/
def handledPackets (m : ManagedSession F) (dgram : Datagram) (now : Instant) : List RaknetPacket :=
  if m.state = .closed then []
  else
    match (m.inner.handleDataPayload dgram.packets now).1 with
    | .ok pkts => pkts.map IncomingPacket.packet
    | .error _ => []

/-- The last state that the control packets of a datagram set. -/
def lastSet (m : ManagedSession F) (dgram : Datagram) (now : Instant) : Option ConnectionState :=
  ((m.handledPackets dgram now).filterMap (RaknetPacket.sets m.config.role)).getLast?

omit [Float64 F] in
/-- A datagram wakes a stale session, and then its control packets set the state. -/
theorem handleDatagram_state (start : Instant) (m : ManagedSession F) (dgram : Datagram) (now : Instant) :
    (m.handleDatagram start dgram now).2.state =
      (m.lastSet dgram now).getD (if m.state = .stale then .connected else m.state) ∧
      (m.handleDatagram start dgram now).2.config = m.config := by
  unfold lastSet handledPackets
  by_cases hclosed : m.state = .closed
  · rw [handleDatagram_closed start hclosed, if_pos hclosed, hclosed]
    exact ⟨rfl, rfl⟩
  · rw [if_neg hclosed, handleDatagram, if_neg hclosed]
    obtain ⟨header, payload⟩ := dgram
    cases payload with
    | ack payload => exact ⟨rfl, rfl⟩
    | nak payload => exact ⟨rfl, rfl⟩
    | encapsulatedPackets packets =>
      simp only [Datagram.packets]
      cases hres : m.inner.handleDataPayload packets now with
      | mk res inner =>
        cases res with
        | error e => exact ⟨rfl, rfl⟩
        | ok pkts => exact handleControlPackets_state start now pkts _

omit [Float64 F] in
theorem buildDatagram_state [Float64 F] (m : ManagedSession F) (now : Instant) :
    (m.buildDatagram now).2.state = m.state ∧ (m.buildDatagram now).2.config = m.config := by
  unfold buildDatagram
  split
  · exact ⟨rfl, rfl⟩
  · simp only
    split <;> exact ⟨rfl, rfl⟩

omit [Float64 F] in
theorem sendDisconnect_state (m : ManagedSession F) (reason : DisconnectReason) :
    (m.sendDisconnect reason).2.state = (if m.state = .closed then .closed else .closing) ∧
      (m.sendDisconnect reason).2.config = m.config := by
  unfold sendDisconnect
  split
  · rename_i h
    exact ⟨h, rfl⟩
  · exact ⟨rfl, (queueControlPacket_state _ _ _ _ _).2⟩

omit [Float64 F] in
theorem queueAppPacket_state (m : ManagedSession F) (pkt : RaknetPacket) (rel : Reliability) (channel : UInt8)
    (priority : RakPriority) (clock : Instant) : (m.queueAppPacket pkt rel channel priority clock).2.state = m.state ∧
      (m.queueAppPacket pkt rel channel priority clock).2.config = m.config := by
  unfold queueAppPacket
  split <;> exact ⟨rfl, rfl⟩

omit [Float64 F] in
theorem startClientHandshake_state (start : Instant) (m : ManagedSession F) (serverGuid : UInt64) (now : Instant)
    (secure : Bool) : (m.startClientHandshake start serverGuid now secure).2.config = m.config ∧
      ((m.startClientHandshake start serverGuid now secure).1 = .ok () ∧
          m.state ≠ .closed ∧ m.config.role = .client ∧
          (m.startClientHandshake start serverGuid now secure).2.state = .onlineHandshake ∨
        (m.startClientHandshake start serverGuid now secure).1 ≠ .ok () ∧
          (m.state = .closed ∨ m.config.role ≠ .client) ∧
          (m.startClientHandshake start serverGuid now secure).2.state = m.state) := by
  unfold startClientHandshake
  split
  · rename_i hclosed
    exact ⟨rfl, .inr ⟨nofun, .inl hclosed, rfl⟩⟩
  · rename_i hopen
    split
    · rename_i hrole
      exact ⟨rfl, .inr ⟨nofun, .inr hrole, rfl⟩⟩
    · rename_i hrole
      rw [not_not] at hrole
      obtain ⟨hs, hc⟩ := queueControlPacket_state ({ m with
        remoteGuid := some serverGuid, state := .onlineHandshake, lastActivity := now, lastPongReceived := now } :
        ManagedSession F)
        (.connectionRequest ⟨m.config.guid, currentRaknetTime start now, secure⟩) .reliable 0 .immediate
      exact ⟨hc, .inl ⟨rfl, hopen, hrole, hs⟩⟩

omit [Float64 F] in
theorem closeWith_state (m : ManagedSession F) (reason : DisconnectReason) :
    (m.closeWith reason).state = .closed ∧ (m.closeWith reason).config = m.config :=
  ⟨rfl, (m.sendDisconnect_state reason).2⟩

omit [Float64 F] in
theorem isConnected_iff {m : ManagedSession F} : m.isConnected = true ↔ m.state = .connected ∨ m.state = .stale := by
  unfold isConnected
  cases m.state <;> decide

omit [Float64 F] in
theorem isConnected_ne_closed {m : ManagedSession F} (h : m.isConnected = true) : m.state ≠ .closed := by
  intro hclosed
  rw [isConnected, hclosed] at h
  cases h

omit [Float64 F] in
theorem checkIdle_of_not_connected {m : ManagedSession F} (h : m.isConnected = false) (now : Instant) :
    m.checkIdle now = m := by
  unfold checkIdle
  rw [h]
  rfl

omit [Float64 F] in
theorem shouldSendPing_of_not_connected {m : ManagedSession F} (h : m.isConnected = false) (now : Instant) :
    m.shouldSendPing now = false := by
  unfold shouldSendPing
  rw [h]
  rfl

omit [Float64 F] in
/-- A session that is not connected has nothing to do before a tick but to keep its queue limit. -/
theorem beforeTick_of_not_connected {m : ManagedSession F} (h : m.isConnected = false) (start now : Instant) :
    m.beforeTick start now = m.enforceQueueLimit := by
  unfold beforeTick
  dsimp only
  rw [checkIdle_of_not_connected h, shouldSendPing_of_not_connected h, if_neg Bool.false_ne_true]

omit [Float64 F] in
theorem checkIdle_closed_iff {m : ManagedSession F} {now : Instant} : (m.checkIdle now).state = .closed ↔
    m.state = .closed ∨ m.isConnected = true ∧ m.config.sessionTimeout ≤ Instant.durationSince now m.lastActivity := by
  cases hconn : m.isConnected with
  | false => simp [checkIdle_of_not_connected hconn]
  | true =>
    have hopen := isConnected_ne_closed hconn
    unfold checkIdle
    rw [if_pos hconn]
    dsimp only
    split
    · rename_i hidle
      exact iff_of_true rfl (.inr ⟨rfl, hidle⟩)
    · rename_i hidle
      have hnot := not_or.2 ⟨hopen, not_and_of_not_right (true = true) hidle⟩
      split
      · exact iff_of_false ConnectionState.noConfusion hnot
      · exact iff_of_false hopen hnot

omit [Float64 F] in
theorem enforceQueueLimit_closed_iff {m : ManagedSession F} : m.enforceQueueLimit.state = .closed ↔
    m.state = .closed ∨ ∃ limit, m.config.maxQueuedReliableBytes = some limit ∧ limit < m.queuedReliableBytes := by
  unfold enforceQueueLimit
  cases hlimit : m.config.maxQueuedReliableBytes with
  | none => simp
  | some limit =>
    dsimp only
    split
    · rename_i hover
      exact iff_of_true rfl (.inr ⟨limit, rfl, hover⟩)
    · rename_i hover
      constructor
      · exact .inl
      · rintro (h | ⟨_, ⟨⟩, hover'⟩)
        · exact h
        · exact absurd hover' hover

omit [Float64 F] in
/-- The ping of a tick changes neither the configuration nor the state. -/
theorem pingIfDue_state (start : Instant) (m : ManagedSession F) (now : Instant) :
    (if m.shouldSendPing now then m.sendConnectedPing start now else m).config = m.config ∧
      (if m.shouldSendPing now then m.sendConnectedPing start now else m).state = m.state := by
  split
  · exact (queueControlPacket_state _ _ _ _ _).symm
  · exact ⟨rfl, rfl⟩

omit [Float64 F] in
theorem checkIdle_state (m : ManagedSession F) (now : Instant) :
    (m.checkIdle now).config = m.config ∧ ((m.checkIdle now).state = .closed ∨
      (m.checkIdle now).state = m.state ∨ m.isConnected = true ∧ (m.checkIdle now).state = .stale) := by
  unfold checkIdle
  split
  · rename_i hconn
    simp only
    split
    · exact ⟨(m.closeWith_state _).2, .inl (m.closeWith_state _).1⟩
    · split
      · exact ⟨rfl, .inr (.inr ⟨hconn, rfl⟩)⟩
      · exact ⟨rfl, .inr (.inl rfl)⟩
  · exact ⟨rfl, .inr (.inl rfl)⟩

omit [Float64 F] in
theorem enforceQueueLimit_state (m : ManagedSession F) : m.enforceQueueLimit.config = m.config ∧
    (m.enforceQueueLimit.state = .closed ∨ m.enforceQueueLimit.state = m.state) := by
  unfold enforceQueueLimit
  split
  · split
    · exact ⟨(m.closeWith_state _).2, .inl (m.closeWith_state _).1⟩
    · exact ⟨rfl, .inr rfl⟩
  · exact ⟨rfl, .inr rfl⟩

omit [Float64 F] in
/-- What a tick does to the state: close the session, or make a connected one stale, or nothing. -/
theorem beforeTick_state (start : Instant) (m : ManagedSession F) (now : Instant) :
    (m.beforeTick start now).config = m.config ∧ ((m.beforeTick start now).state = .closed ∨
      (m.beforeTick start now).state = m.state ∨ m.isConnected = true ∧ (m.beforeTick start now).state = .stale) := by
  -- three stages: the idle check, the ping and the queue limit
  unfold beforeTick
  dsimp only
  obtain ⟨hc, hs⟩ := m.checkIdle_state now
  obtain ⟨hc', hs'⟩ := pingIfDue_state start (m.checkIdle now) now
  obtain ⟨hc'', hs''⟩ := (if (m.checkIdle now).shouldSendPing now then (m.checkIdle now).sendConnectedPing start now
    else m.checkIdle now).enforceQueueLimit_state
  refine ⟨hc''.trans (hc'.trans hc), ?_⟩
  rcases hs'' with hclosed | hsame
  · exact .inl hclosed
  · rw [hsame, hs']
    exact hs

theorem onTick_state (start : Instant) (m : ManagedSession F) (now : Instant) (iter : IterOrder SplitEntries.Item) :
    (m.onTick start now iter).2.state = (m.beforeTick start now).state ∧
      (m.onTick start now iter).2.config = (m.beforeTick start now).config := by
  unfold onTick
  simp only [and_self]

theorem onTick_queued (start : Instant) (m : ManagedSession F) (now : Instant) (iter : IterOrder SplitEntries.Item) :
    (m.onTick start now iter).2.queuedReliableBytes = (m.beforeTick start now).queuedReliableBytes := by
  unfold onTick
  simp only

/-! ## Going forward -/

/-- A control packet that is in place in a state: a server's `ConnectionRequest` before the session is
connected, and what connects a session before it is closing. What closes it is in place everywhere. -/
def InPlace (role : SessionRole) (state : ConnectionState) : RaknetPacket → Prop
  | .connectionRequest _ => role = .server → state = .unconnected ∨ state = .onlineHandshake
  | .connectionRequestAccepted _ => role = .client → state ≠ .closing
  | .newIncomingConnection _ => state ≠ .closing
  | _ => True

theorem rank_le_iff_inPlace {role : SessionRole} {state st : ConnectionState} {pkt : RaknetPacket}
    (hopen : state ≠ .closed) (h : pkt.sets role = some st) : state.rank ≤ st.rank ↔ InPlace role state pkt := by
  cases pkt with
  | connectionRequest req =>
    obtain ⟨hrole, hst⟩ := Option.ite_none_right_eq_some.1 h
    cases hst
    revert hopen
    cases state <;> simp [InPlace, hrole, ConnectionState.rank]
  | connectionRequestAccepted acc =>
    obtain ⟨hrole, hst⟩ := Option.ite_none_right_eq_some.1 h
    cases hst
    revert hopen
    cases state <;> simp [InPlace, hrole, ConnectionState.rank]
  | newIncomingConnection conn =>
    cases h
    revert hopen
    cases state <;> simp [InPlace, ConnectionState.rank]
  | connectionRequestFailed _ | disconnectionNotification _ =>
    cases h
    refine iff_of_true ?_ trivial
    cases state <;> decide
  | _ => cases h

/-- The last control packet of a datagram that sets the state. -/
def lastSetting (m : ManagedSession F) (dgram : Datagram) (now : Instant) : Option RaknetPacket :=
  ((m.handledPackets dgram now).filter fun pkt => (pkt.sets m.config.role).isSome).getLast?

omit [Float64 F] in
theorem lastSet_eq_bind (m : ManagedSession F) (dgram : Datagram) (now : Instant) :
    m.lastSet dgram now = (m.lastSetting dgram now).bind (RaknetPacket.sets m.config.role) :=
  getLast?_filterMap_eq_bind _ _

omit [Float64 F] in
theorem ne_closed_of_lastSetting {m : ManagedSession F} {dgram : Datagram} {now : Instant} {pkt : RaknetPacket}
    (h : m.lastSetting dgram now = some pkt) : m.state ≠ .closed := by
  intro hclosed
  rw [lastSetting, handledPackets, if_pos hclosed] at h
  cases h

/-- A step that does not go back: no datagram whose last control packet that sets the state is out of place, and
no client handshake on a session that is connected or closing. -/
def GoesForward (m : ManagedSession F) : Op → Prop
  | .handleDatagram dgram now => ∀ pkt ∈ m.lastSetting dgram now, InPlace m.config.role m.state pkt
  | .startClientHandshake .. => m.config.role = .client → m.state ≠ .connected ∧ m.state ≠ .stale ∧ m.state ≠ .closing
  | _ => True

theorem rank_step_iff (start : Instant) (m : ManagedSession F) (op : Op) :
    m.state.rank ≤ (m.step start op).state.rank ↔ GoesForward m op := by
  -- only the start of a handshake and the last state that a datagram sets can go back
  cases op with
  | queueAppPacket pkt rel channel priority clock =>
    rw [step, (m.queueAppPacket_state pkt rel channel priority clock).1]
    exact iff_of_true le_rfl trivial
  | buildDatagram now =>
    rw [step, (m.buildDatagram_state now).1]
    exact iff_of_true le_rfl trivial
  | sendDisconnect reason =>
    rw [step, (m.sendDisconnect_state reason).1]
    refine iff_of_true ?_ trivial
    cases m.state <;> decide
  | onTick now iter =>
    refine iff_of_true ?_ trivial
    rw [step, (m.onTick_state start now iter).1]
    rcases (m.beforeTick_state start now).2 with h | h | ⟨hconn, h⟩
    · rw [h]
      cases m.state <;> decide
    · rw [h]
    · rcases isConnected_iff.1 hconn with hs | hs
      · rw [h, hs]
        decide
      · rw [h, hs]
  | startClientHandshake serverGuid now secure =>
    rw [step]
    rcases (m.startClientHandshake_state start serverGuid now secure).2 with ⟨-, hopen, hrole, h⟩ | ⟨-, hwhy, h⟩
    · rw [h]
      simp only [GoesForward, hrole, true_implies]
      revert hopen
      cases m.state <;> decide
    · rw [h]
      refine iff_of_true le_rfl fun hrole => ?_
      rw [hwhy.resolve_right (not_not_intro hrole)]
      decide
  | handleDatagram dgram now =>
    rw [step, (m.handleDatagram_state start dgram now).1, lastSet_eq_bind]
    simp only [GoesForward]
    cases hlast : m.lastSetting dgram now with
    | some pkt =>
      obtain ⟨st, hset⟩ := Option.isSome_iff_exists.1 (List.mem_filter.1 (List.mem_of_getLast? hlast)).2
      rw [Option.bind_some, hset, Option.getD_some, rank_le_iff_inPlace (ne_closed_of_lastSetting hlast) hset]
      simp
    | none =>
      refine iff_of_true ?_ (by rintro pkt ⟨⟩)
      rw [Option.bind_none, Option.getD_none]
      cases m.state <;> decide

/-- Along a run the rank of the state never falls exactly when every step of it goes forward. -/
theorem rank_monotone_iff (start : Instant) (m : ManagedSession F) (ops : List Op) :
    (∀ as bs, as ++ bs <+: ops →
      (Machine.run (step start) m as).state.rank ≤ (Machine.run (step start) m (as ++ bs)).state.rank) ↔
      Machine.Along (step start) GoesForward m ops :=
  Machine.monotone_iff_along (f := fun m : ManagedSession F => m.state.rank) fun m op => m.rank_step_iff start op

/-- A datagram with one packet, sent reliably under the given index. -/
def carrying (pkt : RaknetPacket) (reliableIndex : Sequence24) : Datagram :=
  ⟨⟨.valid, reliableIndex⟩, .encapsulatedPackets
    [Session.singleEncap (pkt.id :: pkt.encodeBody) .reliable 0 (some reliableIndex) none]⟩

/-- A `NewIncomingConnection` to a loopback address. -/
def newIncoming : RaknetPacket := .newIncomingConnection ⟨.loopbackV4, defaultSystemAddresses .loopbackV4, 0, 0⟩

/-- A session that is closing becomes connected when a `NewIncomingConnection` comes in late. -/
theorem rank_not_monotone_closing : ¬ ∀ (start : Instant) (peer : SocketAddr) (mtu : Nat) (now : Instant)
    (config : SessionConfig) (ops : List Op), ∀ as bs, as ++ bs <+: ops →
      (Machine.run (step start) (withConfig peer mtu now config : ManagedSession ℚ) as).state.rank ≤
        (Machine.run (step start) (withConfig peer mtu now config : ManagedSession ℚ) (as ++ bs)).state.rank := by
  intro h
  have hrun := h 0 .loopbackV4 1400 0 { role := .server }
    [.sendDisconnect .disconnected, .handleDatagram (carrying newIncoming (Sequence24.new 0)) 0]
    [.sendDisconnect .disconnected] [.handleDatagram (carrying newIncoming (Sequence24.new 0)) 0] (List.prefix_refl _)
  revert hrun
  decide +kernel

/-! ## Handshake events -/

/-- An event of the handshake: a client handshake that was started, or a packet that was handled. -/
inductive Event
  | started
  | handled (pkt : RaknetPacket)
deriving DecidableEq

/-- The state an event puts a session in. -/
def Event.sets (role : SessionRole) : Event → Option ConnectionState
  | started => some .onlineHandshake
  | handled pkt => pkt.sets role

/-- The events of one call. -/
def events (start : Instant) (m : ManagedSession F) : Op → List Event
  | .handleDatagram dgram now => (m.handledPackets dgram now).map .handled
  | .startClientHandshake serverGuid now secure =>
    if (m.startClientHandshake start serverGuid now secure).1 = .ok () then [.started] else []
  | _ => []

/-- The events of a run, in order. -/
def trace (start : Instant) : ManagedSession F → List Op → List Event
  | _, [] => []
  | m, op :: ops => m.events start op ++ trace start (m.step start op) ops

/-- In a connected session the last event that set the state set it to connected. -/
structure History (role : SessionRole) (past : List Event) (m : ManagedSession F) : Prop where
  connected : m.state.rank = 2 → (past.filterMap (Event.sets role)).getLast? = some .connected
  role : m.config.role = role

omit [Float64 F] in
/-- A step without events that connects nothing keeps the history. -/
theorem History.quiet {role : SessionRole} {past : List Event} {m m' : ManagedSession F} (h : History role past m)
    (hc : m'.config = m.config) (hs : m'.state.rank = 2 → m.state.rank = 2) : History role (past ++ []) m' := by
  rw [List.append_nil]
  exact ⟨fun hconn => h.connected (hs hconn), by rw [hc]; exact h.role⟩

theorem History.step {role : SessionRole} {past : List Event} {m : ManagedSession F} (h : History role past m)
    (start : Instant) (op : Op) : History role (past ++ m.events start op) (m.step start op) := by
  cases op with
  | queueAppPacket pkt rel channel priority clock =>
    obtain ⟨hs, hc⟩ := m.queueAppPacket_state pkt rel channel priority clock
    exact h.quiet hc fun hconn => hs ▸ hconn
  | buildDatagram now =>
    obtain ⟨hs, hc⟩ := m.buildDatagram_state now
    exact h.quiet hc fun hconn => hs ▸ hconn
  | sendDisconnect reason =>
    obtain ⟨hs, hc⟩ := m.sendDisconnect_state reason
    refine h.quiet hc fun hconn => ?_
    rw [ManagedSession.step, hs] at hconn
    split at hconn <;> cases hconn
  | onTick now iter =>
    obtain ⟨hs, hc⟩ := m.onTick_state start now iter
    obtain ⟨hc', hs'⟩ := m.beforeTick_state start now
    rw [ManagedSession.step]
    refine h.quiet (hc.trans hc') fun hconn => ?_
    rw [hs] at hconn
    rcases hs' with hs' | hs' | ⟨hbefore, -⟩
    · rw [hs'] at hconn
      cases hconn
    · rwa [hs'] at hconn
    · rcases isConnected_iff.1 hbefore with h | h
      · rw [h]
        rfl
      · rw [h]
        rfl
  | startClientHandshake serverGuid now secure =>
    obtain ⟨hc, ⟨hok, -, -, hs⟩ | ⟨herr, -, hs⟩⟩ := m.startClientHandshake_state start serverGuid now secure
    · refine ⟨fun hconn => ?_, by rw [ManagedSession.step, hc]; exact h.role⟩
      rw [ManagedSession.step, hs] at hconn
      cases hconn
    · rw [events, if_neg herr]
      exact h.quiet hc fun hconn => hs ▸ hconn
  | handleDatagram dgram now =>
    obtain ⟨hs, hc⟩ := m.handleDatagram_state start dgram now
    refine ⟨fun hconn => ?_, by rw [ManagedSession.step, hc]; exact h.role⟩
    have hmap : (m.events start (.handleDatagram dgram now)).filterMap (Event.sets role) =
        (m.handledPackets dgram now).filterMap (RaknetPacket.sets role) := List.filterMap_map
    rw [ManagedSession.step, hs, lastSet, h.role] at hconn
    rw [List.filterMap_append, hmap, List.getLast?_append]
    cases hlast : ((m.handledPackets dgram now).filterMap (RaknetPacket.sets role)).getLast? with
    | none =>
      -- no packet set the state: the session was connected or stale before
      rw [hlast, Option.getD_none] at hconn
      rw [Option.none_or]
      refine h.connected ?_
      revert hconn
      cases m.state <;> decide
    | some st =>
      rw [hlast, Option.getD_some, ConnectionState.rank_eq_two_iff] at hconn
      obtain ⟨_, pkt, _, -, hset, -⟩ := split_getLast?_filterMap hlast
      rw [Option.some_or, hconn.resolve_right fun hstale => pkt.sets_ne_stale role (hstale ▸ hset)]

theorem History.run {role : SessionRole} (start : Instant) :
    ∀ (ops : List Op) {past : List Event} {m : ManagedSession F}, History role past m →
      History role (past ++ trace start m ops) (Machine.run (ManagedSession.step start) m ops)
  | [], past, m, h => by rwa [trace, List.append_nil]
  | op :: ops, past, m, h => by
    rw [trace, ← List.append_assoc]
    exact History.run start ops (h.step start op)

theorem history_run (start : Instant) (peer : SocketAddr) (mtu : Nat) (now : Instant) (config : SessionConfig)
    (ops : List Op) : History config.role (trace start (withConfig peer mtu now config : ManagedSession F) ops)
      (Machine.run (step start) (withConfig peer mtu now config : ManagedSession F) ops) :=
  have h0 : History config.role [] (withConfig peer mtu now config : ManagedSession F) := ⟨nofun, rfl⟩
  h0.run start ops

/-! ## Handshake safety -/

/-- What a handshake in order looks like: on a server a `ConnectionRequest` and later a
`NewIncomingConnection`, on a client a start and later a `ConnectionRequestAccepted`. -/
def InOrder (role : SessionRole) (past : List Event) : Prop :=
  match role with
  | .server => ∃ pre req mid body post,
    past = pre ++ .handled (.connectionRequest req) :: mid ++ .handled (.newIncomingConnection body) :: post
  | .client => ∃ pre mid body post, past = pre ++ .started :: mid ++ .handled (.connectionRequestAccepted body) :: post

/-- What every connected session has behind it: on a server a `NewIncomingConnection` after every
`ConnectionRequest`, on a client, unless a `NewIncomingConnection` came to it, a `ConnectionRequestAccepted`
after every start of a handshake. -/
def Accepted (role : SessionRole) (past : List Event) : Prop :=
  match role with
  | .server => ∃ pre body post, past = pre ++ .handled (.newIncomingConnection body) :: post ∧
    ∀ req, .handled (.connectionRequest req) ∉ post
  | .client => (∀ body, .handled (.newIncomingConnection body) ∉ past) →
    ∃ pre body post, past = pre ++ .handled (.connectionRequestAccepted body) :: post ∧ .started ∉ post

/-- The events that connect a session. -/
theorem Event.sets_connected {role : SessionRole} {e : Event} (h : e.sets role = some .connected) :
    (∃ body, e = .handled (.newIncomingConnection body)) ∨
      role = .client ∧ ∃ body, e = .handled (.connectionRequestAccepted body) := by
  cases e with
  | started => cases h
  | handled pkt =>
    cases pkt with
    | newIncomingConnection body => exact .inl ⟨body, rfl⟩
    | connectionRequestAccepted body =>
      cases role with
      | server => cases h
      | client => exact .inr ⟨rfl, body, rfl⟩
    | connectionRequest req => cases role <;> cases h
    | _ => cases h

/-- In every run, a session that is connected or stale was accepted: on a server a `NewIncomingConnection` was
handled after every `ConnectionRequest` so far, on a client to which no `NewIncomingConnection` came a
`ConnectionRequestAccepted` after every handshake started so far. -/
theorem connected_accepted (start : Instant) (peer : SocketAddr) (mtu : Nat) (now : Instant) (config : SessionConfig)
    (ops : List Op)
    (h : (Machine.run (step start) (withConfig peer mtu now config : ManagedSession F) ops).isConnected = true) :
    Accepted config.role (trace start (withConfig peer mtu now config : ManagedSession F) ops) := by
  have hrank : (Machine.run (step start) (withConfig peer mtu now config : ManagedSession F) ops).state.rank = 2 := by
    rcases isConnected_iff.1 h with hs | hs
    · rw [hs]
      rfl
    · rw [hs]
      rfl
  obtain ⟨pre, e, post, heq, hset, hpost⟩ :=
    split_getLast?_filterMap ((history_run start peer mtu now config ops).connected hrank)
  rw [heq]
  cases hrole : config.role with
  | server =>
    rw [hrole] at hset hpost
    obtain ⟨body, rfl⟩ | ⟨hclient, -⟩ := Event.sets_connected hset
    · refine ⟨pre, body, post, rfl, fun req hreq => ?_⟩
      cases hpost _ hreq
    · cases hclient
  | client =>
    rw [hrole] at hset hpost
    have hstarted : .started ∉ post := fun hs => nomatch hpost _ hs
    intro hnone
    obtain ⟨body, rfl⟩ | ⟨-, body, rfl⟩ := Event.sets_connected hset
    · exact absurd (List.mem_append_right _ (List.mem_cons_self ..)) (hnone body)
    · exact ⟨pre, body, post, rfl, hstarted⟩

/-- A client's request, and a server's answer to one. -/
def request : RaknetPacket := .connectionRequest ⟨1, 0, false⟩

def acceptance : RaknetPacket := .connectionRequestAccepted ⟨.loopbackV4, 0, defaultSystemAddresses .loopbackV4, 0, 0⟩

/-- A handshake on either side. -/
def serverHandshake : List Op :=
  [.handleDatagram (carrying request (Sequence24.new 0)) 0, .handleDatagram (carrying newIncoming (Sequence24.new 1)) 0]

def clientHandshake : List Op :=
  [.startClientHandshake 1 0 false, .handleDatagram (carrying acceptance (Sequence24.new 0)) 0]

theorem connected_accepted_handshakes :
    Accepted .server (trace 0 (withConfig .loopbackV4 1400 0 { role := .server } : ManagedSession ℚ) serverHandshake) ∧
      ∃ pre body post, trace 0 (withConfig .loopbackV4 1400 0 { role := .client } : ManagedSession ℚ) clientHandshake =
        pre ++ .handled (.connectionRequestAccepted body) :: post ∧ .started ∉ post := by
  refine ⟨connected_accepted 0 .loopbackV4 1400 0 { role := .server } serverHandshake (by decide +kernel), ?_⟩
  refine connected_accepted 0 .loopbackV4 1400 0 { role := .client } clientHandshake (by decide +kernel) fun body => ?_
  have htrace : trace 0 (withConfig .loopbackV4 1400 0 { role := .client } : ManagedSession ℚ) clientHandshake =
      [.started, .handled acceptance] := by decide +kernel
  rw [htrace]
  simp [acceptance]

/-- A server is connected by a `NewIncomingConnection` alone, and a client by an acceptance it did not
ask for or by a `NewIncomingConnection`. -/
theorem connected_not_inOrder :
    ((Machine.run (step 0) (withConfig .loopbackV4 1400 0 { role := .server } : ManagedSession ℚ)
        [.handleDatagram (carrying newIncoming (Sequence24.new 0)) 0]).isConnected = true ∧
      ¬ InOrder .server (trace 0 (withConfig .loopbackV4 1400 0 { role := .server } : ManagedSession ℚ)
        [.handleDatagram (carrying newIncoming (Sequence24.new 0)) 0])) ∧
    ((Machine.run (step 0) (withConfig .loopbackV4 1400 0 { role := .client } : ManagedSession ℚ)
        [.handleDatagram (carrying acceptance (Sequence24.new 0)) 0]).isConnected = true ∧
      ¬ InOrder .client (trace 0 (withConfig .loopbackV4 1400 0 { role := .client } : ManagedSession ℚ)
        [.handleDatagram (carrying acceptance (Sequence24.new 0)) 0])) ∧
    ((Machine.run (step 0) (withConfig .loopbackV4 1400 0 { role := .client } : ManagedSession ℚ)
        [.startClientHandshake 1 0 false, .handleDatagram (carrying newIncoming (Sequence24.new 0)) 0]).isConnected =
        true ∧
      ¬ InOrder .client (trace 0 (withConfig .loopbackV4 1400 0 { role := .client } : ManagedSession ℚ)
        [.startClientHandshake 1 0 false, .handleDatagram (carrying newIncoming (Sequence24.new 0)) 0])) := by
  refine ⟨⟨by decide +kernel, ?_⟩, ⟨by decide +kernel, ?_⟩, ⟨by decide +kernel, ?_⟩⟩
  · have ht : trace 0 (withConfig .loopbackV4 1400 0 { role := .server } : ManagedSession ℚ)
        [.handleDatagram (carrying newIncoming (Sequence24.new 0)) 0] = [.handled newIncoming] := by decide +kernel
    rw [ht]
    -- one packet handled, where the order needs two
    rintro ⟨pre, req, mid, body, post, heq⟩
    have hlen := congrArg List.length heq
    simp at hlen
    omega
  · have ht : trace 0 (withConfig .loopbackV4 1400 0 { role := .client } : ManagedSession ℚ)
        [.handleDatagram (carrying acceptance (Sequence24.new 0)) 0] = [.handled acceptance] := by decide +kernel
    rw [ht]
    rintro ⟨pre, mid, body, post, heq⟩
    have hlen := congrArg List.length heq
    simp at hlen
    omega
  · have ht : trace 0 (withConfig .loopbackV4 1400 0 { role := .client } : ManagedSession ℚ)
        [.startClientHandshake 1 0 false, .handleDatagram (carrying newIncoming (Sequence24.new 0)) 0] =
          [.started, .handled newIncoming] := by decide +kernel
    rw [ht]
    rintro ⟨pre, mid, body, post, heq⟩
    have hmem : Event.handled (.connectionRequestAccepted body) ∈ [Event.started, .handled newIncoming] := by
      rw [heq]
      simp
    rcases List.mem_cons.1 hmem with h | h
    · cases h
    · cases List.mem_singleton.1 h

end ManagedSession

end BedrockRs.Raknet
