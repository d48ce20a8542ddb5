/-
Keep-alive pings. A ping is outstanding from the tick that sends it until a pong with its time is handled,
and while one is, no tick sends another. Pings and pongs are unreliable and an outstanding ping is never
given up: so a connected session goes on pinging exactly as long as every ping is answered.
-/
import BedrockRs.Raknet.Session.ChannelRuns
import BedrockRs.Raknet.Session.QueueAccounting

namespace BedrockRs.Raknet

open Lib

/-! ## Pings and pongs -/

/-- A ping that was sent, or a pong that was handled, with the time of the ping. -/
inductive PingEvent
  | sent (time : RaknetTime)
  | answered (time : RaknetTime)
deriving DecidableEq

namespace PingEvent

/-- What a handled packet says about pings. -/
def ofPacket : RaknetPacket → Option PingEvent
  | .connectedPong pong => some (.answered pong.pingTime)
  | _ => none

/-- The outstanding ping after an event. -/
def after (nonce : Option RaknetTime) : PingEvent → Option RaknetTime
  | sent time => some time
  | answered time => if nonce = some time then none else nonce

/-- The last ping that was sent has this time, and no pong with this time was handled since. -/
def Outstanding (time : RaknetTime) (past : List PingEvent) : Prop :=
  ∃ before behind, past = before ++ .sent time :: behind ∧ (∀ t, .sent t ∉ behind) ∧ .answered time ∉ behind

theorem outstanding_append_sent {past : List PingEvent} {time t : RaknetTime} :
    Outstanding time (past ++ [.sent t]) ↔ t = time := by
  constructor
  · rintro ⟨before, behind, heq, hsent, -⟩
    rcases behind.eq_nil_or_concat with rfl | ⟨init, last, rfl⟩
    · obtain ⟨-, hlast⟩ := List.append_inj' heq rfl
      cases hlast
      rfl
    · -- the event at the end would come after the ping
      rw [List.concat_eq_append] at hsent
      rw [List.concat_eq_append, ← List.cons_append, ← List.append_assoc] at heq
      obtain ⟨-, hlast⟩ := List.append_inj' heq rfl
      cases hlast
      exact absurd (List.mem_append_right _ (List.mem_singleton_self _)) (hsent t)
  · rintro rfl
    exact ⟨past, [], rfl, fun _ h => List.not_mem_nil h, List.not_mem_nil⟩

theorem outstanding_append_answered {past : List PingEvent} {time t : RaknetTime} :
    Outstanding time (past ++ [.answered t]) ↔ Outstanding time past ∧ t ≠ time := by
  constructor
  · rintro ⟨before, behind, heq, hsent, hanswered⟩
    rcases behind.eq_nil_or_concat with rfl | ⟨init, last, rfl⟩
    · obtain ⟨-, hlast⟩ := List.append_inj' heq rfl
      cases hlast
    · rw [List.concat_eq_append] at hsent hanswered
      rw [List.concat_eq_append, ← List.cons_append, ← List.append_assoc] at heq
      obtain ⟨rfl, hlast⟩ := List.append_inj' heq rfl
      cases hlast
      refine ⟨⟨before, init, rfl, fun t' h => hsent t' (List.mem_append_left _ h),
        fun h => hanswered (List.mem_append_left _ h)⟩, ?_⟩
      rintro rfl
      exact hanswered (List.mem_append_right _ (List.mem_singleton_self _))
  · rintro ⟨⟨before, behind, rfl, hsent, hanswered⟩, hne⟩
    refine ⟨before, behind ++ [.answered t], by rw [List.append_assoc, List.cons_append], ?_, ?_⟩
    · intro t' h
      rcases List.mem_append.1 h with h | h
      · exact hsent t' h
      · cases List.mem_singleton.1 h
    · intro h
      rcases List.mem_append.1 h with h | h
      · exact hanswered h
      · cases List.mem_singleton.1 h
        exact hne rfl

/-- A nonce that tells the outstanding ping goes on telling it. -/
theorem after_outstanding {nonce : Option RaknetTime} {past : List PingEvent}
    (h : ∀ time, nonce = some time ↔ Outstanding time past) (e : PingEvent) (time : RaknetTime) :
    e.after nonce = some time ↔ Outstanding time (past ++ [e]) := by
  cases e with
  | sent t => rw [outstanding_append_sent, after, Option.some_inj]
  | answered t =>
    rw [outstanding_append_answered, ← h, after]
    split
    · rename_i ht
      rw [ht]
      simp
    · rename_i ht
      constructor
      · rintro rfl
        exact ⟨rfl, fun heq => ht (by rw [heq])⟩
      · exact And.left

theorem foldl_after_outstanding : ∀ (events : List PingEvent) {nonce : Option RaknetTime} {past : List PingEvent},
    (∀ time, nonce = some time ↔ Outstanding time past) →
    ∀ time, events.foldl after nonce = some time ↔ Outstanding time (past ++ events)
  | [], nonce, past, h, time => by
    rw [List.append_nil]
    exact h time
  | e :: events, nonce, past, h, time => by
    rw [List.append_cons]
    exact foldl_after_outstanding events (after_outstanding h e) time

end PingEvent

namespace ManagedSession

variable {F : Type}

/-! ## The nonce -/

theorem queueControlPacket_nonce (m : ManagedSession F) (pkt : RaknetPacket) (rel : Reliability) (channel : UInt8)
    (priority : RakPriority) :
    (m.queueControlPacket pkt rel channel priority).currentPingNonce = m.currentPingNonce := by
  unfold queueControlPacket
  split <;> rfl

theorem handleControlPacket_nonce (start : Instant) (m : ManagedSession F) (pkt : RaknetPacket) (now : Instant) :
    (m.handleControlPacket start pkt now).currentPingNonce =
      (PingEvent.ofPacket pkt).toList.foldl PingEvent.after m.currentPingNonce := by
  cases pkt with
  | connectionRequest req =>
    simp only [handleControlPacket, handleConnectionRequest]
    split
    · rfl
    · exact queueControlPacket_nonce _ _ _ _ _
  | connectionRequestAccepted acc =>
    simp only [handleControlPacket, handleConnectionRequestAccepted]
    split
    · rfl
    · exact queueControlPacket_nonce _ _ _ _ _
  | connectedPing ping => exact queueControlPacket_nonce _ _ _ _ _
  | connectedPong pong =>
    simp only [handleControlPacket, handleConnectedPong]
    show _ = if m.currentPingNonce = some pong.pingTime then none else m.currentPingNonce
    split <;> rfl
  | connectionRequestFailed _ => rfl
  | newIncomingConnection _ => rfl
  | disconnectionNotification _ => rfl
  | _ =>
    simp only [handleControlPacket]
    rw [handleGenericControlStates_of_none rfl rfl]
    rfl

theorem handleControlPackets_nonce (start now : Instant) : ∀ (pkts : List IncomingPacket) (m : ManagedSession F),
    (pkts.foldl (fun m pkt => m.handleControlPacket start pkt.packet now) m).currentPingNonce =
      ((pkts.map IncomingPacket.packet).filterMap PingEvent.ofPacket).foldl PingEvent.after m.currentPingNonce
  | [], _ => rfl
  | pkt :: pkts, m => by
    rw [List.foldl_cons, handleControlPackets_nonce start now pkts, handleControlPacket_nonce, List.map_cons]
    cases hpkt : PingEvent.ofPacket pkt.packet with
    | none =>
      rw [List.filterMap_cons_none hpkt]
      rfl
    | some e =>
      rw [List.filterMap_cons_some hpkt]
      rfl

/-- The pings and pongs of one call. -/
def pingEvents (start : Instant) (m : ManagedSession F) : Op → List PingEvent
  | .handleDatagram dgram now => (m.handledPackets dgram now).filterMap PingEvent.ofPacket
  | .onTick now _ => if (m.checkIdle now).shouldSendPing now then [.sent (currentRaknetTime start now)] else []
  | _ => []

theorem handleDatagram_nonce (start : Instant) (m : ManagedSession F) (dgram : Datagram) (now : Instant) :
    (m.handleDatagram start dgram now).2.currentPingNonce =
      ((m.handledPackets dgram now).filterMap PingEvent.ofPacket).foldl PingEvent.after m.currentPingNonce := by
  unfold handledPackets
  by_cases hclosed : m.state = .closed
  · rw [handleDatagram_closed start hclosed, if_pos hclosed]
    rfl
  · rw [if_neg hclosed, handleDatagram, if_neg hclosed]
    obtain ⟨header, payload⟩ := dgram
    cases payload with
    | ack payload => rfl
    | nak payload => rfl
    | encapsulatedPackets packets =>
      simp only [Datagram.packets]
      cases m.inner.handleDataPayload packets now with
      | mk res inner =>
        cases res with
        | error e => rfl
        | ok pkts => exact handleControlPackets_nonce start now pkts _

theorem sendDisconnect_nonce (m : ManagedSession F) (reason : DisconnectReason) :
    (m.sendDisconnect reason).2.currentPingNonce = m.currentPingNonce := by
  unfold sendDisconnect
  split
  · rfl
  · exact queueControlPacket_nonce _ _ _ _ _

theorem checkIdle_nonce (m : ManagedSession F) (now : Instant) :
    (m.checkIdle now).currentPingNonce = m.currentPingNonce := by
  unfold checkIdle
  split
  · dsimp only
    split
    · exact m.sendDisconnect_nonce _
    · split <;> rfl
  · rfl

theorem enforceQueueLimit_nonce (m : ManagedSession F) : m.enforceQueueLimit.currentPingNonce = m.currentPingNonce := by
  unfold enforceQueueLimit
  split
  · split
    · exact m.sendDisconnect_nonce _
    · rfl
  · rfl

theorem atQueueLimit_nonce (start : Instant) (m : ManagedSession F) (now : Instant)
    (iter : IterOrder SplitEntries.Item) :
    (m.atQueueLimit start now).currentPingNonce =
      (m.pingEvents start (.onTick now iter)).foldl PingEvent.after m.currentPingNonce := by
  unfold atQueueLimit
  show _ =
    (if (m.checkIdle now).shouldSendPing now then [PingEvent.sent (currentRaknetTime start now)] else []).foldl _ _
  split
  · rfl
  · exact m.checkIdle_nonce now

section Run

variable [Float64 F]

theorem step_nonce (start : Instant) (m : ManagedSession F) (op : Op) :
    (m.step start op).currentPingNonce = (m.pingEvents start op).foldl PingEvent.after m.currentPingNonce := by
  cases op with
  | queueAppPacket pkt rel channel priority clock =>
    rw [step]
    unfold queueAppPacket
    split <;> rfl
  | handleDatagram dgram now => exact m.handleDatagram_nonce start dgram now
  | buildDatagram now =>
    rw [step]
    unfold buildDatagram
    split
    · rfl
    · dsimp only
      split <;> rfl
  -- the nonce changes before the inner tick only
  | onTick now iter =>
    have htick : (m.onTick start now iter).2.currentPingNonce = (m.beforeTick start now).currentPingNonce := by
      unfold onTick
      simp only
    rw [step, htick, beforeTick_eq, enforceQueueLimit_nonce, atQueueLimit_nonce]
  | startClientHandshake serverGuid now secure =>
    rw [step]
    unfold startClientHandshake
    split
    · rfl
    · split
      · rfl
      · exact queueControlPacket_nonce _ _ _ _ _
  | sendDisconnect reason => exact m.sendDisconnect_nonce reason

/-- The pings and pongs of a run, in order. -/
def pingTrace (start : Instant) : ManagedSession F → List Op → List PingEvent
  | _, [] => []
  | m, op :: ops => m.pingEvents start op ++ pingTrace start (m.step start op) ops

theorem run_nonce (start : Instant) : ∀ (ops : List Op) (m : ManagedSession F),
    (Machine.run (step start) m ops).currentPingNonce = (pingTrace start m ops).foldl PingEvent.after m.currentPingNonce
  | [], _ => rfl
  | op :: ops, m => by
    rw [Machine.run_cons, run_nonce start ops, step_nonce, pingTrace, List.foldl_append]

/-- The nonce of a session is the time of the outstanding ping. -/
theorem nonce_iff_outstanding (start : Instant) (peer : SocketAddr) (mtu : Nat) (now : Instant) (config : SessionConfig)
    (ops : List Op) (time : RaknetTime) :
    (Machine.run (step start) (withConfig peer mtu now config : ManagedSession F) ops).currentPingNonce = some time ↔
      PingEvent.Outstanding time (pingTrace start (withConfig peer mtu now config : ManagedSession F) ops) := by
  have hnew : ∀ t, (withConfig peer mtu now config : ManagedSession F).currentPingNonce = some t ↔
      PingEvent.Outstanding t [] := by
    intro t
    constructor
    · rintro ⟨⟩
    · rintro ⟨before, behind, heq, -⟩
      cases before <;> cases heq
  rw [run_nonce]
  exact PingEvent.foldl_after_outstanding _ hnew time

/-! ## What a run keeps -/

theorem step_config (start : Instant) (m : ManagedSession F) (op : Op) : (m.step start op).config = m.config := by
  cases op with
  | queueAppPacket pkt rel channel priority clock =>
    rw [step, (m.queueAppPacket_state pkt rel channel priority clock).2]
  | handleDatagram dgram now => rw [step, (m.handleDatagram_state start dgram now).2]
  | buildDatagram now => rw [step, (m.buildDatagram_state now).2]
  | onTick now iter => rw [step, (m.onTick_state start now iter).2, (m.beforeTick_state start now).1]
  | startClientHandshake serverGuid now secure =>
    rw [step, (m.startClientHandshake_state start serverGuid now secure).1]
  | sendDisconnect reason => rw [step, (m.sendDisconnect_state reason).2]

/-- The inner session has the channels that its configuration says. -/
structure Configured (config : SessionConfig) (m : ManagedSession F) : Prop where
  config_eq : m.config = config
  channels : m.inner.ordering.maxChannels = config.session.maxOrderingChannels

theorem configured_run (start : Instant) (peer : SocketAddr) (mtu : Nat) (now : Instant) (config : SessionConfig)
    (ops : List Op) :
    Configured config (Machine.run (step start) (withConfig peer mtu now config : ManagedSession F) ops) := by
  refine Machine.run_inv_all (P := Configured config) ?_ ops ⟨rfl, List.length_replicate⟩
  rintro m op ⟨hconfig, hchannels⟩
  refine ⟨(m.step_config start op).trans hconfig, ?_⟩
  have hreach : InnerReach (fun _ => True) m.inner (m.step start op).inner :=
    m.step_inner (fun _ _ => trivial) start op (fun _ _ _ => trivial) (fun _ _ _ _ _ => trivial) fun _ _ _ _ _ _ _ =>
      trivial
  refine hreach.inv (I := fun s => s.ordering.maxChannels = config.session.maxOrderingChannels) ?_ hchannels
  rintro s op' - h
  exact Session.step_ordering (OrderingChannels.kept_maxChannels _) h op'

/-! ## The tick -/

omit [Float64 F] in
theorem checkIdle_open {m : ManagedSession F} {now : Instant} (h : (m.checkIdle now).state ≠ .closed) :
    (∃ state, m.checkIdle now = { m with state }) ∧ (m.checkIdle now).isConnected = m.isConnected := by
  unfold checkIdle at h ⊢
  split
  · rename_i hconn
    dsimp only at h ⊢
    split
    · rename_i hidle
      rw [if_pos hconn, if_pos hidle] at h
      exact absurd rfl h
    · split
      · exact ⟨⟨_, rfl⟩, hconn.symm⟩
      · exact ⟨⟨_, rfl⟩, rfl⟩
  · exact ⟨⟨_, rfl⟩, rfl⟩

omit [Float64 F] in
theorem enforceQueueLimit_open {m : ManagedSession F} (h : m.enforceQueueLimit.state ≠ .closed) :
    m.enforceQueueLimit = m := by
  unfold enforceQueueLimit at h ⊢
  split
  · rename_i limit hlimit
    rw [hlimit] at h
    dsimp only at h
    split
    · rename_i hover
      rw [if_pos hover] at h
      exact absurd rfl h
    · rfl
  · rfl

/-- A tick that leaves the session connected neither closes it for being idle nor over its queue limit. -/
theorem onTick_connected {start : Instant} {m : ManagedSession F} {now : Instant} {iter : IterOrder SplitEntries.Item}
    (h : (m.onTick start now iter).2.isConnected = true) :
    ((∃ state, m.checkIdle now = { m with state }) ∧ (m.checkIdle now).isConnected = m.isConnected) ∧
      (m.onTick start now iter).2.inner.outgoingHeap = (m.atQueueLimit start now).inner.outgoingHeap := by
  have hopen := isConnected_ne_closed h
  rw [(m.onTick_state start now iter).1, beforeTick_eq] at hopen
  have hlimit := enforceQueueLimit_open hopen
  constructor
  · apply checkIdle_open
    rw [hlimit] at hopen
    unfold atQueueLimit at hopen
    split at hopen
    · intro hclosed
      apply hopen
      exact (queueControlPacket_state _ _ _ _ _).1.trans hclosed
    · exact hopen
  · obtain ⟨_, _, htick⟩ := (m.beforeTick start now).inner.onTick_state now iter
    obtain ⟨_, _, _, hafter⟩ := (m.beforeTick start now).inner.afterResends_frame now iter
    rw [(m.onTick_eq start now iter).2, htick, hafter, beforeTick_eq, hlimit]
    rfl

/-- The tick puts the frames of a ping into the heap, and nothing else. -/
def QueuesPing (start : Instant) (m : ManagedSession F) (now : Instant) (iter : IterOrder SplitEntries.Item) : Prop :=
  ∃ msg, m.inner.message (.connectedPing ⟨currentRaknetTime start now⟩) .unreliable 0 = some msg ∧
    ((m.onTick start now iter).2.inner.outgoingHeap.data.map QueuedEncap.pkt).Perm
      (msg.frames ++ m.inner.outgoingHeap.data.map QueuedEncap.pkt)

omit [Float64 F] in
/-- A ping becomes a message when there is a channel for it. -/
theorem message_ping_iff (s : Session F) (time : RaknetTime) :
    (s.message (.connectedPing ⟨time⟩) .unreliable 0).isSome = true ↔ 0 < s.ordering.maxChannels := by
  unfold Session.message
  split
  · rename_i hnone
    refine iff_of_false (by decide) ?_
    intro hpos
    exact absurd hpos (Nat.not_lt.2 hnone)
  · rename_i hsome
    refine iff_of_true ?_ (Nat.pos_of_ne_zero fun h0 => hsome (h0 ▸ Nat.zero_le _))
    rw [RaknetPacket.encode]
    dsimp only
    split <;> rfl

/-- A tick that finds and leaves a session connected queues a ping exactly when it may send one and has a channel
to send it on. -/
theorem queuesPing_iff {start : Instant} {config : SessionConfig} {m : ManagedSession F} (hm : Configured config m)
    {now : Instant} {iter : IterOrder SplitEntries.Item} (h : (m.onTick start now iter).2.isConnected = true) :
    QueuesPing start m now iter ↔
      (m.checkIdle now).shouldSendPing now = true ∧ 0 < config.session.maxOrderingChannels := by
  obtain ⟨⟨⟨state, hidle⟩, -⟩, hheap⟩ := onTick_connected h
  have hsome := message_ping_iff m.inner (currentRaknetTime start now)
  rw [hm.channels] at hsome
  -- the heap before the queue limit is the one the ping was pushed on, or the old one
  unfold QueuesPing
  rw [hheap]
  unfold atQueueLimit
  by_cases hping : (m.checkIdle now).shouldSendPing now = true
  · rw [if_pos hping, hidle]
    constructor
    · rintro ⟨msg, hmsg, -⟩
      exact ⟨hidle ▸ hping, hsome.1 (by rw [hmsg]; rfl)⟩
    · rintro ⟨-, hchannels⟩
      obtain ⟨msg, hmsg⟩ := Option.isSome_iff_exists.1 (hsome.2 hchannels)
      refine ⟨msg, hmsg, ?_⟩
      have hqueued := (Session.queuePacket_spec hmsg .immediate).heap
      unfold sendConnectedPing queueControlPacket
      dsimp only
      rw [hm.config_eq,
        if_neg (show ¬ (0 : UInt8).toNat ≥ config.session.maxOrderingChannels from Nat.not_le.2 hchannels)]
      exact hqueued
  · rw [if_neg hping, hidle]
    constructor
    · rintro ⟨msg, hmsg, hperm⟩
      have hlen := hperm.length_eq
      rw [List.length_append] at hlen
      have hpos := List.length_pos_of_ne_nil (Session.message_frames_ne_nil hmsg)
      dsimp only at hlen
      omega
    · rintro ⟨hsend, -⟩
      exact absurd (hidle ▸ hsend) hping

omit [Float64 F] in
/-- With the ping interval over, only an outstanding ping holds back the next. -/
theorem shouldSendPing_checkIdle {m : ManagedSession F} {now last : Instant}
    (hidle : (∃ state, m.checkIdle now = { m with state }) ∧ (m.checkIdle now).isConnected = m.isConnected)
    (hconn : m.isConnected = true) (hlast : m.lastPingSent = some last)
    (hdue : m.config.pingInterval ≤ Instant.durationSince now last) :
    (m.checkIdle now).shouldSendPing now = true ↔ m.currentPingNonce = none := by
  obtain ⟨⟨state, heq⟩, hsame⟩ := hidle
  unfold shouldSendPing
  rw [hsame, hconn, heq]
  dsimp only
  rw [hlast]
  cases hnonce : m.currentPingNonce with
  | none => simpa using hdue
  | some nonce => simp

/-- At a tick that finds and leaves the session connected, and is at least the ping interval and the stale time after
the last ping, a new ping is queued if and only if no ping is outstanding and there is a channel to queue it on. -/
theorem keepalive_iff (start : Instant) (peer : SocketAddr) (mtu : Nat) (t : Instant) (config : SessionConfig)
    (ops : List Op) (now : Instant) (iter : IterOrder SplitEntries.Item)
    (hbefore : (Machine.run (step start) (withConfig peer mtu t config : ManagedSession F) ops).isConnected = true)
    (hafter :
      ((Machine.run (step start) (withConfig peer mtu t config : ManagedSession F) ops).onTick start now
        iter).2.isConnected = true)
    (last : Instant)
    (hlast : (Machine.run (step start) (withConfig peer mtu t config : ManagedSession F) ops).lastPingSent = some last)
    (hdue : max config.pingInterval config.sessionStale ≤ Instant.durationSince now last) :
    QueuesPing start (Machine.run (step start) (withConfig peer mtu t config : ManagedSession F) ops) now iter ↔
      (∀ time, ¬ PingEvent.Outstanding time (pingTrace start (withConfig peer mtu t config : ManagedSession F) ops)) ∧
        0 < config.session.maxOrderingChannels := by
  have hm := configured_run (F := F) start peer mtu t config ops
  have hnonce := nonce_iff_outstanding (F := F) start peer mtu t config ops
  generalize Machine.run (step start) (withConfig peer mtu t config : ManagedSession F) ops = m at *
  rw [queuesPing_iff hm hafter, shouldSendPing_checkIdle (onTick_connected hafter).1 hbefore hlast ?_]
  · refine and_congr_left fun _ => ?_
    constructor
    · intro hnone time hout
      rw [(hnonce time).2 hout] at hnone
      cases hnone
    · intro hout
      exact Option.eq_none_iff_forall_ne_some.2 fun time htime => hout time ((hnonce time).1 htime)
  · rw [hm.config_eq]
    exact le_trans (le_max_left _ _) hdue

/-- A server that is connected and sends its first ping. -/
def firstPing : List Op :=
  [.handleDatagram (carrying newIncoming (Sequence24.new 0)) 0, .onTick 0 (IterOrder.stored _), .buildDatagram 0]

/-- If the ping is answered after a second, the next goes out at a later tick. -/
theorem keepalive_iff_answered :
    QueuesPing 0 (Machine.run (step 0) (withConfig .loopbackV4 1400 0 { role := .server } : ManagedSession ℚ)
      (firstPing ++ [.handleDatagram (carrying (.connectedPong ⟨0, 0⟩) (Sequence24.new 1)) (Duration.fromSecs 1)]))
      (Duration.fromSecs 6) (IterOrder.stored _) := by
  refine (keepalive_iff (F := ℚ) 0 .loopbackV4 1400 0 { role := .server } _ (Duration.fromSecs 6) (IterOrder.stored _)
    (by decide +kernel) (by decide +kernel) 0 (by decide +kernel) (by decide +kernel)).2 ⟨?_, by decide⟩
  intro time hout
  have htrace : pingTrace 0 (withConfig .loopbackV4 1400 0 { role := .server } : ManagedSession ℚ)
      (firstPing ++ [.handleDatagram (carrying (.connectedPong ⟨0, 0⟩) (Sequence24.new 1)) (Duration.fromSecs 1)]) =
        ([] ++ [.sent 0]) ++ [.answered 0] := by decide +kernel
  rw [htrace, PingEvent.outstanding_append_answered, PingEvent.outstanding_append_sent] at hout
  exact hout.2 hout.1

/-- If the ping is lost, no ping goes out any more, though the session stays connected. -/
theorem keepalive_lost : ¬ ∀ (start : Instant) (peer : SocketAddr) (mtu : Nat) (t : Instant) (config : SessionConfig)
    (ops : List Op) (now : Instant) (iter : IterOrder SplitEntries.Item),
    (Machine.run (step start) (withConfig peer mtu t config : ManagedSession ℚ) ops).isConnected = true →
    ((Machine.run (step start) (withConfig peer mtu t config : ManagedSession ℚ) ops).onTick start now
      iter).2.isConnected = true →
    ∀ last, (Machine.run (step start) (withConfig peer mtu t config : ManagedSession ℚ) ops).lastPingSent = some last →
      max config.pingInterval config.sessionStale ≤ Instant.durationSince now last →
      QueuesPing start (Machine.run (step start) (withConfig peer mtu t config : ManagedSession ℚ) ops) now iter := by
  intro h
  obtain ⟨msg, hmsg, hperm⟩ :=
    h 0 .loopbackV4 1400 0 { role := .server } firstPing (Duration.fromSecs 6) (IterOrder.stored _)
    (by decide +kernel) (by decide +kernel) 0 (by decide +kernel) (by decide +kernel)
  have hempty :
    ((Machine.run (step 0) (withConfig .loopbackV4 1400 0 { role := .server } : ManagedSession ℚ) firstPing).onTick 0
      (Duration.fromSecs 6) (IterOrder.stored _)).2.inner.outgoingHeap.data = [] := by decide +kernel
  rw [hempty, List.map_nil] at hperm
  exact Session.message_frames_ne_nil hmsg (List.append_eq_nil_iff.1 hperm.nil_eq.symm).1

end Run

end ManagedSession

end BedrockRs.Raknet
