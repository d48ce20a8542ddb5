/-
How a client's application learns that its session is closed. The muxer looks for a closed session only
after a datagram that it has handled; the tick, which closes a session that has been idle for too long,
does not look. So the application is told of what the server says and not of a server that has gone
silent.
-/
import BedrockRs.Raknet.Session.Activity
import BedrockRs.Raknet.Session.Lifecycle
import BedrockRs.Raknet.Transport.Stream

namespace BedrockRs.Raknet.Transport

open Lib

/-- The errors that are handed to the application. -/
def errorsOf (out : List Output) : List RaknetError :=
  out.filterMap fun o =>
    match o with
    | .toApp _ (.error e) => some e
    | _ => none

@[simp] theorem errorsOf_nil : errorsOf [] = [] := rfl

@[simp] theorem errorsOf_append (as bs : List Output) : errorsOf (as ++ bs) = errorsOf as ++ errorsOf bs :=
  List.filterMap_append

theorem errorsOf_sendTo {out : List Output} {peer : SocketAddr} (h : ∀ o ∈ out, ∃ bytes, o = .sendTo bytes peer) :
    errorsOf out = [] := by
  unfold errorsOf
  rw [List.filterMap_eq_nil_iff]
  intro o ho
  obtain ⟨bytes, rfl⟩ := h o ho
  rfl

@[simp] theorem errorsOf_deliverToApp (server : SocketAddr) (msgs : List ReceivedMessage) (dropsAfter : Option Nat) :
    errorsOf (deliverToApp server msgs dropsAfter).1 = [] := by
  have hok : ∀ msgs : List ReceivedMessage, errorsOf (msgs.map fun msg => Output.toApp server (.ok msg)) = [] := by
    intro msgs
    unfold errorsOf
    simp [List.filterMap_map]
  unfold deliverToApp
  split <;> exact hok _

namespace ClientMuxer

variable {F : Type}

def Closed (m : ClientMuxer F) : Prop := ∃ ms ∈ m.managed, ms.state = .closed

/-- Once the session is closed, the application has been told so exactly once and the loop has ended. -/
def Learns (s : List Output × ClientMuxer F) : Prop := s.2.Closed → s.2.running = false ∧ ∃ e, errorsOf s.1 = [e]

/-- A received packet that closes the session: a datagram of the server in which the last packet that sets
the state closes it. -/
def EndsSession (ctx : ClientMuxerContext) (m : ClientMuxer F) (env : ClientEnv) (bytes : Bytes) (peer : SocketAddr) :
    Prop :=
  peer = ctx.server ∧ (∃ header ∈ bytes.head?, isDatagramHeader header = true) ∧
    ∃ dgram rest, Datagram.decode.run bytes = .ok (dgram, rest) ∧
      ∃ ms ∈ m.managed, ms.lastSet dgram env.now = some .closed

/-- The events after which a closed session is noticed: no tick that finds a connected session idle for the
session timeout, and no packet that closes the session while the application drops its stream. -/
def Noticed (ctx : ClientMuxerContext) (m : ClientMuxer F) : Event → Prop
  | .tick env _ => ∀ ms ∈ m.managed, ms.isConnected = true →
      Instant.durationSince env.now ms.lastActivity < ctx.config.sessionTimeout
  | .received env bytes peer => EndsSession ctx m env bytes peer → env.dropsAfter = none
  | _ => True

/-- The loop is going on as it should: the handshake was started, the session is open and has the client's
configuration, and no error was handed out. -/
structure Attending (ctx : ClientMuxerContext) (s : List Output × ClientMuxer F) : Prop where
  managed : ∃ ms, s.2.managed = some ms ∧ ms.config = ctx.sessionConfig ∧ ms.state ≠ .closed
  started : s.2.handshakeStarted = true
  untold : errorsOf s.1 = []

/-- What one event does to a loop that is going on as it should. -/
inductive Outcome (ctx : ClientMuxerContext) (m : ClientMuxer F) (e : Event) (s' : List Output × ClientMuxer F) : Prop
  | goesOn (attending : Attending ctx s') (noticed : Noticed ctx m e)
  | told (e' : RaknetError) (once : errorsOf s'.1 = [e']) (ended : s'.2.running = false) (noticed : Noticed ctx m e)
  | dropped (closed : s'.2.Closed) (untold : errorsOf s'.1 = []) (unnoticed : ¬ Noticed ctx m e)
  | idle (closed : s'.2.Closed) (running : s'.2.running = true) (unnoticed : ¬ Noticed ctx m e)

variable [Float64 F] {ctx : ClientMuxerContext}

/-- A flush without a tick leaves the state and the configuration alone and tells the application nothing. -/
theorem flush_same {start : Instant} {ms ms' : ManagedSession F} {peer : SocketAddr} {now : Instant} {out : List Output}
    (h : flushManaged start ms peer now none = some (out, ms')) :
    ms'.state = ms.state ∧ ms'.config = ms.config ∧ errorsOf out = [] := by
  obtain ⟨hstate, hconfig, -⟩ := reach_build_same (flushManaged_reach h)
  exact ⟨hstate, hconfig, errorsOf_sendTo (flushManaged_sendTo h)⟩

theorem flush_tick {start : Instant} {ms ms' : ManagedSession F} {peer : SocketAddr} {now : Instant}
    {iter : IterOrder SplitEntries.Item} {out : List Output}
    (h : flushManaged start ms peer now (some iter) = some (out, ms')) :
    ms'.state = (ms.beforeTick start now).state ∧ ms'.config = ms.config ∧ errorsOf out = [] := by
  have hreach := flushManaged_reach h
  rw [tickDatagrams] at hreach
  obtain ⟨hstate, hconfig, -⟩ := reach_build_same hreach
  obtain ⟨hticked, htickedConfig⟩ := ms.onTick_state start now iter
  refine ⟨hstate.trans hticked, ?_, errorsOf_sendTo (flushManaged_sendTo h)⟩
  rw [hconfig, htickedConfig, (ms.beforeTick_state start now).1]

/-- When the loop begins it is going on as it should. -/
theorem begin_attending {now : Instant} {s : List Output × ClientMuxer F} (h : begin ctx now = some s) :
    Attending ctx s ∧ s.2.running = true := by
  unfold begin ensureClientHandshake at h
  obtain ⟨⟨started, ms, handshakeStarted⟩, hstart, h⟩ := Option.bind_eq_some_iff.1 h
  cases h
  rw [if_neg Bool.false_ne_true] at hstart
  obtain ⟨hconfig, hok⟩ :=
    (ensureClientSession ctx (⟨none, false, none, true⟩ : ClientMuxer F) now).startClientHandshake_state
    ctx.start ctx.serverGuid now ctx.secureConnectionEstablished
  -- a new client session is neither closed nor a server's
  rcases hok with ⟨hres, -, -, hstate⟩ | ⟨-, hwhy, -⟩
  · split at hstart
    · rename_i e ms' heq
      rw [heq] at hres
      cases hres
    · rename_i ms' heq
      rw [heq] at hconfig hstate
      obtain ⟨⟨out, ms''⟩, hflush, hstart⟩ := Option.bind_eq_some_iff.1 hstart
      cases hstart
      obtain ⟨hs, hc, herrors⟩ := flush_same hflush
      refine ⟨⟨⟨ms, rfl, hc.trans hconfig, ?_⟩, rfl, herrors⟩, rfl⟩
      rw [hs, hstate]
      decide
  · rcases hwhy with hclosed | hrole
    · cases hclosed
    · exact absurd rfl hrole

section Step

variable {s : List Output × ClientMuxer F} {out : List Output} {m' : ClientMuxer F} {ms : ManagedSession F}
  {env : ClientEnv}

/-- The handshake is not started twice. -/
theorem ensureClientHandshake_started (ms : ManagedSession F) (now : Instant) :
    ensureClientHandshake ctx ms true now = some ([], ms, true) := if_pos rfl

/-- The end of a datagram's handling: the application is told of a closed session and the loop ends, or the
session is open and the loop goes on. -/
theorem concludeDatagram_cases {m : ClientMuxer F} (h : m.concludeDatagram ctx env ms = some (out, m')) :
    m'.handshakeStarted = m.handshakeStarted ∧
      (ms.state = .closed ∧ m'.managed = some ms ∧ m'.running = false ∧
          errorsOf out = (if env.dropsAfter.isNone then [closedError ms] else []) ∨
        ms.state ≠ .closed ∧ errorsOf out = [] ∧
          ∃ ms', m'.managed = some ms' ∧ ms'.config = ms.config ∧ ms'.state = ms.state) := by
  unfold concludeDatagram at h
  dsimp only at h
  split at h
  · rename_i hclosed
    cases h
    refine ⟨rfl, .inl ⟨hclosed, rfl, rfl, ?_⟩⟩
    split <;> rfl
  · rename_i hopen
    obtain ⟨⟨sent, ms'⟩, hflush, h⟩ := Option.bind_eq_some_iff.1 h
    cases h
    obtain ⟨hstate, hconfig, herrors⟩ := flush_same hflush
    exact ⟨rfl, .inr ⟨hopen, herrors, ms', rfl, hconfig, hstate⟩⟩

/-- A datagram that fails sets no state. -/
theorem lastSet_of_error {start now : Instant} {dgram : Datagram} {e : SessionError} (hopen : ms.state ≠ .closed)
    (h : (ms.handleDatagram start dgram now).1 = .error e) : ms.lastSet dgram now = none := by
  have hpayload :=
    (ManagedSession.handleDatagram_open (P := fun _ => True) (fun _ _ => trivial) start hopen dgram now).1
  rw [h] at hpayload
  unfold ManagedSession.lastSet ManagedSession.handledPackets
  rw [if_neg hopen]
  cases hres : (ms.inner.handleDataPayload dgram.packets now).1 with
  | error e' => rfl
  | ok pkts =>
    rw [hres] at hpayload
    cases hpayload

omit [Float64 F] in
/-- An open session is closed by a datagram exactly when the last packet that sets the state closes it. -/
theorem handleDatagram_closed_iff (start now : Instant) (dgram : Datagram) (hopen : ms.state ≠ .closed) :
    (ms.handleDatagram start dgram now).2.state = .closed ↔ ms.lastSet dgram now = some .closed := by
  rw [(ms.handleDatagram_state start dgram now).1]
  cases ms.lastSet dgram now with
  | none =>
    simp only [Option.getD_none, reduceCtorEq, iff_false]
    split
    · decide
    · exact hopen
  | some st => simp

/-- An outbound message leaves the state and the configuration alone and tells the application nothing. -/
theorem handleOutbound_same {m : ClientMuxer F} {msg : OutboundMsg} (hms : m.managed = some ms)
    (hstarted : m.handshakeStarted = true) (h : m.handleOutbound ctx env msg = some (out, m')) :
    m'.handshakeStarted = true ∧ m'.running = m.running ∧ errorsOf out = [] ∧
      ∃ ms', m'.managed = some ms' ∧ ms'.state = ms.state ∧ ms'.config = ms.config := by
  have hsession : m.ensureClientSession ctx env.now = ms := by rw [ensureClientSession, hms, Option.getD_some]
  unfold handleOutbound at h
  rw [hsession, hstarted, ensureClientHandshake_started, Option.bind_eq_bind, Option.bind_some] at h
  dsimp only at h
  obtain ⟨⟨sent, ms'⟩, hflush, h⟩ := Option.bind_eq_some_iff.1 h
  cases h
  obtain ⟨hstate, hconfig, herrors⟩ := flush_same hflush
  obtain ⟨hqueued, hqueuedConfig⟩ :=
    ms.queueAppPacket_state msg.packet msg.reliability msg.channel msg.priority env.clock
  exact ⟨rfl, rfl, by simp [herrors], ms', rfl, hstate.trans hqueued, hconfig.trans hqueuedConfig⟩

theorem handleTick_same {m : ClientMuxer F} {iter : IterOrder SplitEntries.Item} (hms : m.managed = some ms)
    (h : m.handleTick ctx env iter = some (out, m')) :
    m'.handshakeStarted = m.handshakeStarted ∧ m'.running = m.running ∧ errorsOf out = [] ∧
      ∃ ms', m'.managed = some ms' ∧ ms'.state = (ms.beforeTick ctx.start env.now).state ∧ ms'.config = ms.config := by
  unfold handleTick at h
  rw [hms] at h
  obtain ⟨⟨sent, ms'⟩, hflush, h⟩ := Option.bind_eq_some_iff.1 h
  cases h
  obtain ⟨hstate, hconfig, herrors⟩ := flush_tick hflush
  exact ⟨rfl, rfl, herrors, ms', rfl, hstate, hconfig⟩

variable (ha : Attending ctx s)
include ha

theorem handleDatagram_outcome {bytes rest : Bytes} {header : UInt8} {dgram : Datagram}
    (hheader : bytes.head? = some header) (hflag : isDatagramHeader header = true)
    (hdec : Datagram.decode.run bytes = .ok (dgram, rest)) (h : s.2.handleDatagram ctx env dgram = some (out, m')) :
    Outcome ctx s.2 (.received env bytes ctx.server) (s.1 ++ out, m') := by
  obtain ⟨⟨ms, hms, hconfig, hopen⟩, hstarted, huntold⟩ := ha
  -- what ends the session is a matter of the datagram and the state before it
  have hends : EndsSession ctx s.2 env bytes ctx.server ↔ ms.lastSet dgram env.now = some .closed := by
    constructor
    · rintro ⟨-, -, dgram', rest', hdec', ms', hms', hlast⟩
      rw [hdec] at hdec'
      rw [hms] at hms'
      cases hdec'
      cases hms'
      exact hlast
    · intro hlast
      exact ⟨rfl, ⟨header, hheader, hflag⟩, dgram, rest, hdec, ms, hms, hlast⟩
  have hsession : s.2.ensureClientSession ctx env.now = ms := by rw [ensureClientSession, hms, Option.getD_some]
  unfold handleDatagram at h
  rw [hsession, hstarted, ensureClientHandshake_started, Option.bind_eq_bind, Option.bind_some] at h
  dsimp only at h
  have hclosed := handleDatagram_closed_iff ctx.start env.now dgram hopen
  have hsame := (ms.handleDatagram_state ctx.start dgram env.now).2
  split at h
  · -- skipped: the datagram has failed, so it has not closed the session
    rename_i hskip
    cases h
    have hnone : ms.lastSet dgram env.now = none := by
      cases hres : (ms.handleDatagram ctx.start dgram env.now).1 with
      | ok pkts =>
        rw [hres] at hskip
        cases hskip
      | error e => exact lastSet_of_error hopen hres
    rw [hnone] at hends hclosed
    refine .goesOn ⟨⟨_, rfl, hsame.trans hconfig, ?_⟩, rfl, by simp [huntold]⟩ fun he => ?_
    · intro hc
      cases hclosed.1 hc
    · cases hends.1 he
  · split at h
    · obtain ⟨⟨rest, m₁⟩, hconclude, h⟩ := Option.bind_eq_some_iff.1 h
      cases h
      -- delivered: the loop concludes, which tells the application of a session that is closed by now
      obtain ⟨hkept, ⟨hc, hmanaged, hended, herrors⟩ | ⟨ho, herrors, ms', hmanaged, hconfig', hstate'⟩⟩ :=
        concludeDatagram_cases hconclude
      · by_cases hdrop : env.dropsAfter = none
        · refine .told (closedError (ms.handleDatagram ctx.start dgram env.now).2) ?_ hended fun _ => hdrop
          simp [huntold, herrors, hdrop]
        · refine .dropped ⟨_, hmanaged, hc⟩ ?_ fun hn => hdrop (hn (hends.2 (hclosed.1 hc)))
          simp [huntold, herrors, hdrop]
      · refine .goesOn ⟨⟨ms', hmanaged, hconfig'.trans (hsame.trans hconfig), ?_⟩, hkept, ?_⟩ fun he => ?_
        · rw [hstate']
          exact ho
        · simp [huntold, herrors]
        · exact absurd (hclosed.2 (hends.1 he)) ho
    · rename_i htaken
      cases h
      -- the application has gone in the middle of the delivery, and the loop returns at once
      have hdrop : env.dropsAfter ≠ none := by
        intro hdrop
        apply htaken
        rw [hdrop]
        rfl
      have herrors : errorsOf (s.1 ++ ([] ++ (deliverToApp ctx.server
          (receivedMessages (ms.handleDatagram ctx.start dgram env.now).1) env.dropsAfter).1)) = [] := by
        simp [huntold]
      by_cases hc : (ms.handleDatagram ctx.start dgram env.now).2.state = .closed
      · exact .dropped ⟨_, rfl, hc⟩ herrors fun hn => hdrop (hn (hends.2 (hclosed.1 hc)))
      · exact .goesOn ⟨⟨_, rfl, hsame.trans hconfig, hc⟩, rfl, herrors⟩ fun he => absurd (hclosed.2 (hends.1 he)) hc

theorem handlePacket_outcome {bytes : Bytes} {peer : SocketAddr}
    (h : s.2.handlePacket ctx env bytes peer = some (out, m')) :
    Outcome ctx s.2 (.received env bytes peer) (s.1 ++ out, m') := by
  -- a packet that is not handled as a datagram changes at most who knows that the loop has ended
  have hsame : ∀ m : ClientMuxer F, m.managed = s.2.managed → m.handshakeStarted = s.2.handshakeStarted →
      Attending ctx (s.1 ++ [], m) := by
    intro m hmanaged hstarted
    constructor
    · rw [hmanaged]
      exact ha.managed
    · exact hstarted.trans ha.started
    · simp [ha.untold]
  unfold handlePacket at h
  split at h
  · rename_i hpeer
    cases h
    exact .goesOn (hsame _ rfl rfl) fun he => absurd he.1 hpeer
  · rename_i hpeer
    rw [not_not] at hpeer
    subst hpeer
    cases bytes with
    | nil =>
      cases h
      refine .goesOn (hsame _ rfl rfl) ?_
      rintro ⟨-, ⟨header, hheader, -⟩, -⟩
      cases hheader
    | cons header bytes =>
      dsimp only at h
      split at h
      · rename_i hflag
        cases h
        refine .goesOn (hsame _ ?_ ?_) ?_
        · unfold handleNonDatagram
          split
          · split <;> rfl
          · rfl
        · unfold handleNonDatagram
          split
          · split <;> rfl
          · rfl
        · rintro ⟨-, ⟨header', hheader, hflag'⟩, -⟩
          cases hheader
          rw [hflag'] at hflag
          cases hflag
      · rename_i hflag
        rw [Bool.not_eq_true, Bool.not_eq_false'] at hflag
        split at h
        · rename_i dgram rest hdec
          exact handleDatagram_outcome ha rfl hflag hdec h
        · rename_i e hdec
          cases h
          refine .goesOn (hsame _ rfl rfl) ?_
          rintro ⟨-, -, dgram, rest, hdec', -⟩
          rw [hdec] at hdec'
          cases hdec'

theorem handleOutbound_outcome {msg : OutboundMsg} (h : s.2.handleOutbound ctx env msg = some (out, m')) :
    Outcome ctx s.2 (.outbound env msg) (s.1 ++ out, m') := by
  obtain ⟨⟨ms, hms, hconfig, hopen⟩, hstarted, huntold⟩ := ha
  obtain ⟨hstarted', -, herrors, ms', hms', hstate, hconfig'⟩ := handleOutbound_same hms hstarted h
  refine .goesOn ⟨⟨ms', hms', hconfig'.trans hconfig, ?_⟩, hstarted', ?_⟩ trivial
  · rw [hstate]
    exact hopen
  · simp [huntold, herrors]

theorem handleTick_outcome {iter : IterOrder SplitEntries.Item} (hrunning : s.2.running = true)
    (h : s.2.handleTick ctx env iter = some (out, m')) : Outcome ctx s.2 (.tick env iter) (s.1 ++ out, m') := by
  obtain ⟨⟨ms, hms, hconfig, hopen⟩, hstarted, huntold⟩ := ha
  obtain ⟨hstarted', hrunning', herrors, ms', hms', hstate, hconfig'⟩ := handleTick_same hms h
  have hlimit : ms.config.maxQueuedReliableBytes = none := by rw [hconfig]; rfl
  have htimeout : ms.config.sessionTimeout = ctx.config.sessionTimeout := by rw [hconfig]; rfl
  have hclosed := ManagedSession.beforeTick_closed_unlimited ctx.start env.now hlimit
  rw [← hstate, htimeout] at hclosed
  by_cases hc : ms'.state = .closed
  · obtain ⟨hconn, hidle⟩ := (hclosed.1 hc).resolve_left hopen
    refine .idle ⟨ms', hms', hc⟩ (hrunning'.trans hrunning) fun hn => ?_
    exact absurd (hn ms hms hconn) (Nat.not_lt.2 hidle)
  · refine .goesOn ⟨⟨ms', hms', hconfig'.trans hconfig, hc⟩, hstarted'.trans hstarted, ?_⟩ ?_
    · simp [huntold, herrors]
    · intro ms₁ hms₁ hconn
      rw [hms] at hms₁
      cases hms₁
      by_contra hidle
      exact hc (hclosed.2 (.inr ⟨hconn, Nat.not_lt.1 hidle⟩))

theorem shutdown_outcome {iter : IterOrder SplitEntries.Item} (h : s.2.shutdown ctx env iter = some (out, m')) :
    Outcome ctx s.2 (.stop env iter) (s.1 ++ out, m') := by
  obtain ⟨⟨ms, hms, hconfig, hopen⟩, hstarted, huntold⟩ := ha
  unfold shutdown at h
  rw [hms] at h
  dsimp only at h
  split at h
  · obtain ⟨⟨sent, ms'⟩, hflush, h⟩ := Option.bind_eq_some_iff.1 h
    cases h
    obtain ⟨hstate, hconfig', herrors⟩ := flush_tick hflush
    obtain ⟨hclosing, hsame⟩ := ms.sendDisconnect_state .disconnected
    rw [if_neg hopen] at hclosing
    have hlimit : (ms.sendDisconnect .disconnected).2.config.maxQueuedReliableBytes = none := by
      rw [hsame, hconfig]
      rfl
    refine .goesOn ⟨⟨ms', rfl, hconfig'.trans (hsame.trans hconfig), ?_⟩, hstarted, ?_⟩ trivial
    · -- a closing session is not looked at by the idle check
      rw [hstate, ne_eq, ManagedSession.beforeTick_closed_unlimited ctx.start env.now hlimit, hclosing,
        ManagedSession.isConnected, hclosing]
      simp
    · simp [huntold, herrors]
  · cases h
    exact .goesOn ⟨⟨ms, rfl, hconfig, hopen⟩, hstarted, by simp [huntold]⟩ trivial

/-- One event, whatever it is. -/
theorem next_outcome (hrunning : s.2.running = true) {e : Event} {s' : List Output × ClientMuxer F}
    (h : next ctx s e = some s') : Outcome ctx s.2 e s' := by
  obtain ⟨⟨out, m'⟩, hstep, h⟩ := Option.bind_eq_some_iff.1 h
  cases h
  unfold step at hstep
  rw [if_pos hrunning] at hstep
  cases e with
  | received env bytes peer => exact handlePacket_outcome ha hstep
  | reset =>
    cases hstep
    exact .goesOn ⟨ha.managed, ha.started, by simp [ha.untold]⟩ trivial
  | outbound env msg => exact handleOutbound_outcome ha hstep
  | tick env iter => exact handleTick_outcome ha hrunning hstep
  | stop env iter => exact shutdown_outcome ha hstep

end Step

/-! ## Runs -/

theorem after_concat {now : Instant} {past : List Event} {e : Event} {s' : List Output × ClientMuxer F} :
    after ctx now (past ++ [e]) = some s' ↔ ∃ s, after ctx now past = some s ∧ next ctx s e = some s' := by
  unfold after
  rw [Machine.run_append]
  exact Option.bind_eq_some_iff

omit [Float64 F] in
theorem Attending.learns {s : List Output × ClientMuxer F} (h : Attending ctx s) : Learns s := by
  rintro ⟨ms, hms, hclosed⟩
  obtain ⟨ms', hms', -, hopen⟩ := h.managed
  rw [hms'] at hms
  cases hms
  exact absurd hclosed hopen

/-- A loop that has ended stays as it is. -/
theorem next_ended {s s' : List Output × ClientMuxer F} {e : Event} (hended : s.2.running = false)
    (h : next ctx s e = some s') : s' = s := by
  unfold next step at h
  rw [hended] at h
  cases h
  simp

/-- The invariant of a run: the application learns of a closed session, and a loop that is running is going
on as it should. -/
structure Sound (ctx : ClientMuxerContext) (s : List Output × ClientMuxer F) : Prop where
  learns : Learns s
  attending : s.2.running = true → Attending ctx s

/-- An event keeps the invariant exactly when it is noticed. -/
theorem next_sound {s s' : List Output × ClientMuxer F} {e : Event} (hs : Sound ctx s) (h : next ctx s e = some s') :
    (Learns s' → Sound ctx s') ∧ (Learns s' ↔ (s.2.running = true → Noticed ctx s.2 e)) := by
  cases hrunning : s.2.running with
  | false =>
    rw [next_ended hrunning h]
    exact ⟨fun _ => hs, iff_of_true hs.learns (by simp)⟩
  | true =>
    simp only [true_implies]
    cases next_outcome (hs.attending hrunning) hrunning h with
    | goesOn attending noticed => exact ⟨fun hl => ⟨hl, fun _ => attending⟩, iff_of_true attending.learns noticed⟩
    | told e' once ended noticed =>
      have hl : Learns s' := fun _ => ⟨ended, e', once⟩
      refine ⟨fun _ => ⟨hl, fun hr => ?_⟩, iff_of_true hl noticed⟩
      rw [ended] at hr
      cases hr
    | dropped closed untold unnoticed =>
      have hl : ¬ Learns s' := by
        intro hl
        obtain ⟨-, e', once⟩ := hl closed
        rw [untold] at once
        cases once
      exact ⟨fun h => absurd h hl, iff_of_false hl unnoticed⟩
    | idle closed running unnoticed =>
      have hl : ¬ Learns s' := by
        intro hl
        obtain ⟨ended, -⟩ := hl closed
        rw [running] at ended
        cases ended
      exact ⟨fun h => absurd h hl, iff_of_false hl unnoticed⟩

/-- The invariant holds along a run whose events all keep it. -/
theorem sound_of_keeps {ctx : ClientMuxerContext} {now : Instant} {events : List Event}
    (hkeeps : ∀ past e (s s' : List Output × ClientMuxer F), past ++ [e] <+: events → after ctx now past = some s →
      next ctx s e = some s' → Sound ctx s → Sound ctx s') (past : List Event) (s : List Output × ClientMuxer F)
    (hpre : past <+: events) (hs : after ctx now past = some s) : Sound ctx s := by
  induction past using List.reverseRecOn generalizing s with
  | nil =>
    have hbegin := (begin_attending hs).1
    exact ⟨hbegin.learns, fun _ => hbegin⟩
  | append_singleton past e ih =>
    obtain ⟨s₀, hs₀, hnext⟩ := after_concat.1 hs
    exact hkeeps past e s₀ s hpre hs₀ hnext (ih s₀ ((List.prefix_append past [e]).trans hpre) hs₀)

/-- Throughout a run the application learns of the end of its session exactly when every event of the run is
noticed. -/
theorem learns_iff_noticed (ctx : ClientMuxerContext) (now : Instant) (events : List Event) :
    (∀ past (s : List Output × ClientMuxer F), past <+: events → after ctx now past = some s → Learns s) ↔
      ∀ past e (s s' : List Output × ClientMuxer F), past ++ [e] <+: events → after ctx now past = some s →
        next ctx s e = some s' → s.2.running = true → Noticed ctx s.2 e := by
  constructor
  · intro h past e s s' hpre hs hnext
    have hbefore : Sound ctx s := by
      refine sound_of_keeps (fun past e s s' hpre hs hnext hsound => ?_) past s
        ((List.prefix_append past [e]).trans hpre) hs
      exact (next_sound hsound hnext).1 (h _ s' hpre (after_concat.2 ⟨s, hs, hnext⟩))
    exact (next_sound hbefore hnext).2.1 (h _ s' hpre (after_concat.2 ⟨s, hs, hnext⟩))
  · intro h past s hpre hs
    refine (sound_of_keeps (fun past e s s' hpre hs hnext hsound => ?_) past s hpre hs).learns
    obtain ⟨hkeeps, hiff⟩ := next_sound hsound hnext
    exact hkeeps (hiff.2 (h past e s s' hpre hs hnext))

/-! ## Silence -/

/-- An event that is no received packet and does not end the loop. -/
def Event.isQuiet : Event → Prop
  | .received .. | .stop .. => False
  | _ => True

/-- With a closed session and its loop still running, the application is told nothing of what is no packet. -/
theorem unheard_of_quiet {s s' : List Output × ClientMuxer F} {e : Event} (hquiet : e.isQuiet) (hclosed : s.2.Closed)
    (hrunning : s.2.running = true) (hstarted : s.2.handshakeStarted = true) (h : next ctx s e = some s') :
    s'.2.Closed ∧ s'.2.running = true ∧ s'.2.handshakeStarted = true ∧ errorsOf s'.1 = errorsOf s.1 := by
  obtain ⟨⟨out, m'⟩, hstep, h⟩ := Option.bind_eq_some_iff.1 h
  cases h
  unfold step at hstep
  rw [if_pos hrunning] at hstep
  obtain ⟨ms, hms, hstate⟩ := hclosed
  cases e with
  | received env bytes peer => exact hquiet.elim
  | stop env iter => exact hquiet.elim
  | reset =>
    cases hstep
    exact ⟨⟨ms, hms, hstate⟩, hrunning, hstarted, by simp⟩
  | outbound env msg =>
    obtain ⟨hstarted', hrunning', herrors, ms', hms', hstate', -⟩ := handleOutbound_same hms hstarted hstep
    exact ⟨⟨ms', hms', hstate'.trans hstate⟩, hrunning'.trans hrunning, hstarted', by simp [herrors]⟩
  | tick env iter =>
    obtain ⟨hstarted', hrunning', herrors, ms', hms', hstate', -⟩ := handleTick_same hms hstep
    refine ⟨⟨ms', hms', ?_⟩, hrunning'.trans hrunning, hstarted'.trans hstarted, by simp [herrors]⟩
    rw [hstate']
    rcases (ms.beforeTick_state ctx.start env.now).2 with hs | hs | ⟨hconn, hs⟩
    · exact hs
    · rw [hs, hstate]
    · rw [ManagedSession.isConnected, hstate] at hconn
      cases hconn

/-- Once the session is closed without a word, the application is told nothing as long as no packet comes in. -/
theorem unheard_while_quiet {events : List Event} (hquiet : ∀ e ∈ events, e.isQuiet)
    {s s' : List Output × ClientMuxer F} (hclosed : s.2.Closed) (hrunning : s.2.running = true)
    (hstarted : s.2.handshakeStarted = true) (h : Machine.run (Machine.advance (next ctx)) (some s) events = some s') :
    s'.2.Closed ∧ s'.2.running = true ∧ errorsOf s'.1 = errorsOf s.1 := by
  induction events generalizing s with
  | nil =>
    cases h
    exact ⟨hclosed, hrunning, rfl⟩
  | cons e events ih =>
    obtain ⟨mid, hnext, hrest⟩ := Machine.run_advance_cons h
    obtain ⟨hclosed', hrunning', hstarted', herrors⟩ :=
      unheard_of_quiet (hquiet e (List.mem_cons_self ..)) hclosed hrunning hstarted hnext
    rw [← herrors]
    exact ih (fun e he => hquiet e (List.mem_cons_of_mem _ he)) hclosed' hrunning' hstarted' hrest

/-- A client of a server on the loopback address. -/
def plainContext : ClientMuxerContext := ⟨0, .loopbackV4, 1, 2, true, {}⟩

/-- The datagram with which a server completes the handshake. -/
def acceptedBytes : Bytes :=
  (ManagedSession.carrying (.connectionRequestAccepted
    ⟨.loopbackV4, 47, ManagedSession.defaultSystemAddresses .loopbackV4, 0, 0⟩) (Sequence24.new 0)).encode.toOption.getD
    []

/-- The client's session is connected by this event. -/
def accepted : Event := .received ⟨1, 1, none⟩ acceptedBytes .loopbackV4

/-- A tick in the order of the map. -/
def plainTick (now : Instant) : Event := .tick ⟨now, now, none⟩ (IterOrder.stored _)

/-- A server that goes silent after the handshake: the tick closes the session and says nothing. -/
theorem not_learns_idle : ¬ ∀ (ctx : ClientMuxerContext) (now : Instant) (past events : List Event)
    (s s' : List Output × ClientMuxer ℚ), after ctx now past = some s → (∃ ms ∈ s.2.managed, ms.isConnected = true) →
      after ctx now (past ++ events) = some s' → Learns s' := by
  intro h
  have hrun : ((after plainContext 0 [accepted] : Option (List Output × ClientMuxer ℚ)).map fun s =>
      s.2.managed.map fun ms => ms.isConnected) = some (some true) ∧
    ((after plainContext 0 ([accepted] ++ [plainTick (Duration.fromSecs 20)]) :
    Option (List Output × ClientMuxer ℚ)).map fun s =>
      (s.2.managed.map fun ms => ms.state, s.2.running)) = some (some .closed, true) := by
    constructor <;> decide +kernel
  obtain ⟨hbefore, hafter⟩ := hrun
  obtain ⟨s, hs, hconn⟩ := Option.map_eq_some_iff.1 hbefore
  obtain ⟨ms, hms, hconn⟩ := Option.map_eq_some_iff.1 hconn
  obtain ⟨s', hs', hclosed⟩ := Option.map_eq_some_iff.1 hafter
  obtain ⟨hmanaged, hrunning⟩ := Prod.mk.inj hclosed
  obtain ⟨ms', hms', hstate⟩ := Option.map_eq_some_iff.1 hmanaged
  obtain ⟨hended, -⟩ :=
    h plainContext 0 [accepted] [plainTick (Duration.fromSecs 20)] s s' hs ⟨ms, hms, hconn⟩ hs' ⟨ms', hms', hstate⟩
  rw [hrunning] at hended
  cases hended

end ClientMuxer

end BedrockRs.Raknet.Transport
