/-
Which packets of a peer with a session are taken for offline packets. The listener tries the datagram
grammar first and the offline one only when that fails, and the datagram decoder does not ask for the
VALID flag; so an unconnected ping whose time makes it a row of frames is handled as a datagram of the
session. The two connection requests are always told apart, by the magic, but a second request that
completes a handshake replaces the session of its sender.
-/
import BedrockRs.Raknet.Transport.ListenerSpec

namespace BedrockRs.Raknet.Transport.Listener

open Lib

variable {F : Type} [Float64 F]

/-- The packet goes to the offline handler, and the session of its sender is as it was. -/
def RoutedOffline (host : Host) (env : Env) (l : Listener F) (bytes : Bytes) (peer : SocketAddr) : Prop :=
  ∃ out l', l.dispatchDatagram host env bytes peer = some (out, l') ∧
    l.handleOffline host env bytes peer = some (out, l') ∧ l'.sessions.lookup peer = l.sessions.lookup peer

/-- A first request of the right version while the configured MTU is below the least one, where the clamp
panics. -/
def ProbePanics (host : Host) (pkt : RaknetPacket) : Prop :=
  ∃ req, pkt = .openConnectionRequest1 req ∧ req.protocolVersion = raknetProtocolVersion ∧
    host.config.maxMtu < minimumMtuSize

theorem dispatchDatagram_of_error (host : Host) (env : Env) {l : Listener F} {peer : SocketAddr}
    {state : SessionState F} {bytes : Bytes} {pkt : RaknetPacket} (hlookup : l.sessions.lookup peer = some state)
    (hdec : RaknetPacket.decodeFrom bytes = .ok pkt) (hoff : pkt.isOfflineRequest = true) {e : DecodeError}
    (herr : Datagram.decode bytes = .error e) :
    l.dispatchDatagram host env bytes peer = l.handleOffline host env bytes peer := by
  obtain ⟨tail, hbytes, -⟩ := RaknetPacket.decodeFrom_ok hdec
  have hid := isOfflinePacketId_of_ok hbytes hdec hoff
  have hincoming : handleIncomingUdp host env bytes peer state = some ((false, false), [], state) := by
    unfold handleIncomingUdp
    rw [show Datagram.decode.run bytes = .error e from herr]
  unfold dispatchDatagram
  simp only [hlookup, hincoming, Option.bind_eq_bind, Option.bind_some, Bool.not_false, if_true, Bool.false_eq_true,
    if_false, HashMap.replace_lookup hlookup]
  rw [hbytes]
  exact if_pos hid

/-- Only the clamp makes an offline packet panic. -/
theorem handleOffline_eq_none {host : Host} {env : Env} {l : Listener F} {peer : SocketAddr} {bytes : Bytes}
    {pkt : RaknetPacket} (hdec : RaknetPacket.decodeFrom bytes = .ok pkt) :
    l.handleOffline host env bytes peer = none ↔ ProbePanics host pkt := by
  unfold handleOffline
  rw [hdec]
  cases pkt with
  | openConnectionRequest1 req =>
    dsimp only
    rw [handleRequest1_eq_none]
    constructor
    · rintro ⟨-, hversion, hmax⟩
      exact ⟨req, rfl, hversion, hmax⟩
    · rintro ⟨req', hreq, hversion, hmax⟩
      cases hreq
      exact ⟨request1_magic hdec, hversion, hmax⟩
  | _ => exact ⟨nofun, fun ⟨_, hreq, _⟩ => (nomatch hreq)⟩

/-- The offline handler answers a ping with one packet, which is no datagram. -/
theorem handleOffline_ping (host : Host) (env : Env) (l : Listener F) (peer : SocketAddr) {bytes : Bytes}
    {pkt : RaknetPacket} (hdec : RaknetPacket.decodeFrom bytes = .ok pkt) (hping : pkt.isPing = true) :
    ∃ tail l', l.handleOffline host env bytes peer = some ([.sendTo (0x1c :: tail) peer], l') := by
  obtain ⟨tail, -, hbody⟩ := RaknetPacket.decodeFrom_ok hdec
  have hpong : ∀ req : UnconnectedPing, req.magic = defaultUnconnectedMagic →
      ∃ tail, host.pong env peer req = [.sendTo (0x1c :: tail) peer] := by
    intro req hmagic
    unfold Host.pong
    rw [if_neg (not_not_intro hmagic)]
    exact ⟨_, rfl⟩
  unfold handleOffline
  rw [hdec]
  cases pkt with
  | unconnectedPing req | unconnectedPingOpenConnections req =>
    obtain ⟨rest, hp⟩ := hbody _ rfl
    obtain ⟨p, hp, hreq⟩ := BedrockRs.Lib.Codec.map_ok.1 hp
    cases hreq
    obtain ⟨tail, hpong⟩ := hpong _ (ping_magic hp)
    exact ⟨tail, _, by dsimp only; rw [hpong]⟩
  | _ => cases hping

/-- A ping that is also a datagram is not routed to the offline handler. -/
theorem not_routedOffline_of_ok {host : Host} {env : Env} {l : Listener F} {peer : SocketAddr} {state : SessionState F}
    {bytes : Bytes} {pkt : RaknetPacket} (hlookup : l.sessions.lookup peer = some state)
    (hdec : RaknetPacket.decodeFrom bytes = .ok pkt) (hping : pkt.isPing = true) {d : Datagram} {rest : Bytes}
    (hok : Datagram.decode bytes = .ok (d, rest)) : ¬ RoutedOffline host env l bytes peer := by
  rintro ⟨out, l', hdispatch, hoffline, -⟩
  obtain ⟨tail, l'', hpong⟩ := handleOffline_ping host env l peer hdec hping
  rw [hpong] at hoffline
  cases hoffline
  cases dispatchDatagram_cases hdispatch with
  | online state' state'' removed hlookup' hhandled hpending hsessions =>
    -- what the session sends is marked valid, the pong is not
    obtain ⟨d', tail', hbuf, hvalid⟩ := hhandled.sent _ _ (List.mem_singleton_self _)
    obtain ⟨hflags, -⟩ := List.cons.inj hbuf
    rw [DatagramFlags.contains, ← hflags] at hvalid
    revert hvalid
    decide
  | offline hundecoded hstep =>
    obtain ⟨e, he⟩ := hundecoded state hlookup
    rw [hok] at he; cases he
  | garbage state' hlookup' hundecoded hsessions hpending =>
    obtain ⟨e, he⟩ := hundecoded
    rw [hok] at he; cases he
  | ignored hnone hnot hsame => rw [hlookup] at hnone; cases hnone

/-- For an offline request of at most 2048 bytes from a peer with a session: it is routed to the offline
handler and leaves the session as it is, unless it is a ping whose bytes from the fifth on are framed,
or completes a handshake that puts another session in its place, or makes the clamp panic. The datagram
decoder rejects it in all but the first case. -/
theorem routedOffline_iff (host : Host) (env : Env) (l : Listener F) (peer : SocketAddr) (state : SessionState F)
    (hlookup : l.sessions.lookup peer = some state) (bytes : Bytes) (hlen : bytes.length ≤ 2048) (pkt : RaknetPacket)
    (hdec : RaknetPacket.decodeFrom bytes = .ok pkt) (hoff : pkt.isOfflineRequest = true) :
    (RoutedOffline host env l bytes peer ↔ ¬ (pkt.isPing = true ∧ Framed (bytes.drop 4)) ∧
      (∀ mtu, l.Completes env bytes peer mtu → state = SessionState.fresh host peer mtu.toNat env.now) ∧
      ¬ ProbePanics host pkt) ∧
    ((∃ e, Datagram.decode bytes = .error e) ↔ ¬ (pkt.isPing = true ∧ Framed (bytes.drop 4))) := by
  have hiff := RaknetPacket.datagram_decode_iff hdec hoff hlen
  cases hd : Datagram.decode bytes with
  | ok p =>
    obtain ⟨d, rest⟩ := p
    have hconfused := hiff.1 ⟨d, rest, hd⟩
    refine ⟨iff_of_false (not_routedOffline_of_ok hlookup hdec hconfused.1 hd) fun h => h.1 hconfused, ?_⟩
    exact iff_of_false (fun ⟨e, he⟩ => by cases he) (not_not_intro hconfused)
  -- rejected by the datagram decoder: the request goes to the offline handler, and what that does to the session counts
  | error e =>
    have hclear : ¬ (pkt.isPing = true ∧ Framed (bytes.drop 4)) := fun h => by
      obtain ⟨d, rest, hok⟩ := hiff.2 h
      rw [hd] at hok; cases hok
    refine ⟨?_, iff_of_true ⟨e, rfl⟩ hclear⟩
    have hroute := dispatchDatagram_of_error host env hlookup hdec hoff hd
    constructor
    · rintro ⟨out, l', -, hoffline, hsame⟩
      refine ⟨hclear, fun mtu hcompletes => ?_, fun hpanics => ?_⟩
      · cases handleOffline_cases hoffline with
        | quiet hsessions hpending hnot => exact absurd hcompletes (hnot mtu)
        | issues req mtu' hdec' =>
          obtain ⟨req', pc, hdec'', -⟩ := hcompletes
          rw [hdec'] at hdec''; cases hdec''
        | accepts mtu' hcompletes' hsessions hpending =>
          rw [hsessions, AList.lookup_insert, hlookup] at hsame
          rw [hcompletes.unique hcompletes']
          exact (Option.some.inj hsame).symm
      · rw [(handleOffline_eq_none hdec).2 hpanics] at hoffline
        cases hoffline
    · rintro ⟨-, hkept, hpanics⟩
      cases hoffline : l.handleOffline host env bytes peer with
      | none => exact absurd ((handleOffline_eq_none hdec).1 hoffline) hpanics
      | some r =>
        obtain ⟨out, l'⟩ := r
        refine ⟨out, l', hroute.trans hoffline, hoffline, ?_⟩
        cases handleOffline_cases hoffline with
        | quiet hsessions hpending hnot => rw [hsessions]
        | issues req mtu hdec' hsessions hpending hout => rw [hsessions]
        | accepts mtu hcompletes hsessions hpending =>
          rw [hsessions, AList.lookup_insert, hlookup, hkept mtu hcompletes]

/-- A listener with one session and no handshake under way. -/
def oneSession (host : Host) (peer : SocketAddr) : Listener F :=
  ⟨AList.insert peer (SessionState.fresh host peer 1400 0) ∅, ∅⟩

/-- An unconnected ping sent at time zero. -/
def plainPing : Bytes := RaknetPacket.id (.unconnectedPing ⟨0, defaultUnconnectedMagic⟩) ::
  UnconnectedPing.encode ⟨0, defaultUnconnectedMagic⟩

/-- An unconnected ping whose time reads as a sequence number and the start of one frame that is as long
as the rest of the packet. -/
def framedPing : Bytes := RaknetPacket.id (.unconnectedPing ⟨0x900000, defaultUnconnectedMagic⟩) ::
  UnconnectedPing.encode ⟨0x900000, defaultUnconnectedMagic⟩

theorem routedOffline_plainPing :
    RoutedOffline (Host.plain {}) (Env.at 5) (oneSession (Host.plain {}) .loopbackV4 : Listener ℚ) plainPing
    .loopbackV4 := by
  have hiff :=
    routedOffline_iff (Host.plain {}) (Env.at 5) (oneSession (Host.plain {}) .loopbackV4 : Listener ℚ) .loopbackV4
    (SessionState.fresh (Host.plain {}) .loopbackV4 1400 0) (AList.lookup_insert _) plainPing (by decide)
    (.unconnectedPing ⟨0, defaultUnconnectedMagic⟩) (by decide +kernel) rfl
  have hrejected : Datagram.decode plainPing = .error .unexpectedEof := by decide +kernel
  refine hiff.1.2 ⟨hiff.2.1 ⟨_, hrejected⟩, ?_, fun ⟨_, hreq, _⟩ => (nomatch hreq)⟩
  rintro mtu ⟨req, pc, -, hpc, -⟩
  cases hpc

/-- The framed ping of a connected peer is handled as a datagram of its session. -/
theorem not_routedOffline_framedPing :
    ¬ ∀ (host : Host) (env : Env) (l : Listener ℚ) (peer : SocketAddr) (state : SessionState ℚ),
      l.sessions.lookup peer = some state → ∀ (bytes : Bytes) (pkt : RaknetPacket), bytes.length ≤ 2048 →
    RaknetPacket.decodeFrom bytes = .ok pkt → pkt.isOfflineRequest = true → RoutedOffline host env l bytes peer := by
  intro h
  have hdec : RaknetPacket.decodeFrom framedPing = .ok (.unconnectedPing ⟨0x900000, defaultUnconnectedMagic⟩) := by
    decide +kernel
  have hlookup : (oneSession (Host.plain {}) .loopbackV4 : Listener ℚ).sessions.lookup .loopbackV4 =
      some (SessionState.fresh (Host.plain {}) .loopbackV4 1400 0) := AList.lookup_insert _
  have hok : (Datagram.decode framedPing).isOk = true := by decide +kernel
  cases hd : Datagram.decode framedPing with
  | error e => rw [hd] at hok; cases hok
  | ok p =>
    exact not_routedOffline_of_ok hlookup hdec rfl hd
      (h (Host.plain {}) (Env.at 5) _ .loopbackV4 _ hlookup framedPing _ (by decide) hdec rfl)

end BedrockRs.Raknet.Transport.Listener
