/-
What a handler of the listener can do, said once for each handler. An offline packet leaves the
sessions alone, or issues a cookie, or completes a pending handshake and inserts a session; a datagram
changes the session of its sender; an outbound message finds or inserts a session; the tick changes
every session in place and removes those that are closed. The invariants of the listener are
derived from these cases.
-/
import BedrockRs.Raknet.Protocol.Framing
import BedrockRs.Raknet.Protocol.Size
import BedrockRs.Raknet.Session.Lifecycle
import BedrockRs.Raknet.Transport.Listener

namespace BedrockRs.Raknet.Transport

open Lib BedrockRs.Lib.Codec

variable {F : Type}

theorem maybeAnnounceConnection_managed (env : Env) (peer : SocketAddr) (state : SessionState F) :
    (maybeAnnounceConnection env peer state).2.managed = state.managed := by
  unfold maybeAnnounceConnection
  split
  · rfl
  · split <;> rfl

/-- A session is not connected when it is made, so it is not announced yet. -/
theorem maybeAnnounceConnection_fresh [Float64 F] (env : Env) (host : Host) (peer : SocketAddr) (mtu : Nat)
    (now : Instant) : maybeAnnounceConnection env peer (SessionState.fresh host peer mtu now : SessionState F) =
      ([], SessionState.fresh host peer mtu now) := rfl

namespace Listener

theorem accept_eq [Float64 F] (host : Host) (env : Env) (l : Listener F) (peer : SocketAddr) (mtu : UInt16) :
    l.accept host env peer mtu = (reply2 host env peer mtu,
      { l with sessions := l.sessions.insert peer (SessionState.fresh host peer mtu.toNat env.now) }) := by
  unfold accept
  rw [maybeAnnounceConnection_fresh]
  rfl

theorem not_sendTo_mem_announced {env : Env} {peer : SocketAddr} {state : SessionState F} {buf : Bytes}
    {p : SocketAddr} : Output.sendTo buf p ∉ (maybeAnnounceConnection env peer state).1 := by
  unfold maybeAnnounceConnection
  split
  · simp
  · split
    · split <;> simp
    · simp

theorem not_sendTo_mem_delivered {peer : SocketAddr} {res : Except SessionError (List IncomingPacket)} {buf : Bytes}
    {p : SocketAddr} : Output.sendTo buf p ∉ delivered peer res := by
  cases res <;> simp [delivered]

theorem not_sendTo_mem_closedNotice {peer : SocketAddr} {state : SessionState F} {buf : Bytes} {p : SocketAddr} :
    Output.sendTo buf p ∉ closedNotice peer state := by
  unfold closedNotice
  split
  · split <;> simp
  · simp

/-! ## Offline packets -/

/-- The packet is a second request that completes the pending handshake of its sender, with this MTU. -/
def Completes (env : Env) (l : Listener F) (bytes : Bytes) (peer : SocketAddr) (mtu : UInt16) : Prop :=
  ∃ req pc, RaknetPacket.decodeFrom bytes = .ok (.openConnectionRequest2 req) ∧ l.pending.lookup peer = some pc ∧
    env.now < pc.expiresAt ∧ req.cookie = some pc.cookie ∧ minimumMtuSize ≤ req.mtu ∧ req.mtu ≤ maximumMtuSize ∧
    mtu = min pc.mtu req.mtu

theorem Completes.unique {env : Env} {l : Listener F} {bytes : Bytes} {peer : SocketAddr} {mtu mtu' : UInt16}
    (h : l.Completes env bytes peer mtu) (h' : l.Completes env bytes peer mtu') : mtu = mtu' := by
  obtain ⟨req, pc, hdec, hpc, -, -, -, -, rfl⟩ := h
  obtain ⟨req', pc', hdec', hpc', -, -, -, -, rfl⟩ := h'
  rw [hdec] at hdec'
  rw [hpc] at hpc'
  cases hdec'
  cases hpc'
  rfl

/-- The reply that issues a cookie. -/
def reply1 (host : Host) (peer : SocketAddr) (cookie : UInt32) (mtu : UInt16) : List Output :=
  sendUnconnectedPacket peer (.openConnectionReply1 ⟨defaultUnconnectedMagic, host.serverGuid, some cookie, mtu⟩)

/-- The pending handshake that a first request leaves behind. -/
def issued (host : Host) (env : Env) (peer : SocketAddr) (mtu : UInt16) : PendingConnection :=
  ⟨mtu, env.now + Duration.fromSecs 10, host.generateCookie env peer⟩

/-- What an offline packet does. -/
inductive OfflineStep [Float64 F] (host : Host) (env : Env) (l : Listener F) (bytes : Bytes) (peer : SocketAddr)
    (out : List Output) (l' : Listener F) : Prop
  | quiet (hsessions : l'.sessions = l.sessions)
    (hpending : ∀ p pc, l'.pending.lookup p = some pc → l.pending.lookup p = some pc)
    (hnot : ∀ mtu, ¬ l.Completes env bytes peer mtu)
  | issues (req : OpenConnectionRequest1) (mtu : UInt16)
    (hdec : RaknetPacket.decodeFrom bytes = .ok (.openConnectionRequest1 req)) (hsessions : l'.sessions = l.sessions)
    (hpending : l'.pending = (l.expirePending env.now).pending.insert peer (issued host env peer mtu))
    (hout : out = reply1 host peer (host.generateCookie env peer) mtu)
    (hroom : l.sessions.len < host.config.maxConnections)
  | accepts (mtu : UInt16) (hcompletes : l.Completes env bytes peer mtu)
    (hsessions : l'.sessions = l.sessions.insert peer (SessionState.fresh host peer mtu.toNat env.now))
    (hpending : l'.pending = (l.expirePending env.now).pending.erase peer)

theorem lookup_expirePending {l : Listener F} {now : Instant} {p : SocketAddr} {pc : PendingConnection} :
    (l.expirePending now).pending.lookup p = some pc ↔ l.pending.lookup p = some pc ∧ now < pc.expiresAt := by
  rw [expirePending, HashMap.lookup_retain, Option.filter_eq_some_iff, decide_eq_true_eq]

theorem handleRequest1_cases {host : Host} {env : Env} {l l' : Listener F} {peer : SocketAddr}
    {req : OpenConnectionRequest1} {out : List Output} (h : l.handleRequest1 host env peer req = some (out, l')) :
    l' = l ∨ ∃ mtu, l' = { l with pending := l.pending.insert peer (issued host env peer mtu) } ∧
      out = reply1 host peer (host.generateCookie env peer) mtu ∧ l.sessions.len < host.config.maxConnections := by
  unfold handleRequest1 at h
  split at h
  · cases h; exact .inl rfl
  · split at h
    · cases h; exact .inl rfl
    · obtain ⟨mtu, -, h⟩ := Option.bind_eq_some_iff.1 h
      dsimp only at h
      split at h
      · cases h; exact .inl rfl
      · rename_i hroom
        split at h
        · cases h; exact .inl rfl
        · cases h; exact .inr ⟨mtu, rfl, rfl, Nat.lt_of_not_ge hroom⟩

/-- A first request makes the handler panic only in the clamp. -/
theorem handleRequest1_eq_none {host : Host} {env : Env} {l : Listener F} {peer : SocketAddr}
    {req : OpenConnectionRequest1} : l.handleRequest1 host env peer req = none ↔ req.magic = defaultUnconnectedMagic ∧
      req.protocolVersion = raknetProtocolVersion ∧ host.config.maxMtu < minimumMtuSize := by
  unfold handleRequest1 clampMtu
  by_cases hm : req.magic = defaultUnconnectedMagic
  · rw [if_neg (not_not_intro hm)]
    by_cases hv : req.protocolVersion = raknetProtocolVersion
    · rw [if_neg (not_not_intro hv)]
      by_cases hmax : host.config.maxMtu < minimumMtuSize
      · rw [if_pos hmax]
        exact ⟨fun _ => ⟨hm, hv, hmax⟩, fun _ => rfl⟩
      · rw [if_neg hmax, Option.bind_eq_bind, Option.bind_some]
        dsimp only
        constructor
        · intro h
          split at h
          · cases h
          · split at h <;> cases h
        · exact fun h => absurd h.2.2 hmax
    · rw [if_pos hv]
      exact ⟨fun h => (nomatch h), fun h => absurd h.2.1 hv⟩
  · rw [if_pos hm]
    exact ⟨fun h => (nomatch h), fun h => absurd h.1 hm⟩

theorem ping_magic {src rest : Bytes} {req : UnconnectedPing} (h : UnconnectedPing.decode src = .ok (req, rest)) :
    req.magic = defaultUnconnectedMagic := by
  obtain ⟨time, mid, -, h⟩ := bind_ok.1 h
  obtain ⟨magic, mid, hmagic, h⟩ := bind_ok.1 h
  obtain ⟨rfl, -⟩ := pure_ok.1 h
  exact (defaultMagic_ok hmagic).1

theorem request1_magic {bytes : Bytes} {req : OpenConnectionRequest1}
    (h : RaknetPacket.decodeFrom bytes = .ok (.openConnectionRequest1 req)) : req.magic = defaultUnconnectedMagic := by
  obtain ⟨tail, -, hbody⟩ := RaknetPacket.decodeFrom_ok h
  obtain ⟨rest, hdec⟩ := hbody _ rfl
  obtain ⟨p, hp, hreq⟩ := map_ok.1 hdec
  cases hreq
  obtain ⟨magic, mid, hmagic, hp⟩ := bind_ok.1 hp
  obtain ⟨version, mid, -, hp⟩ := bind_ok.1 hp
  obtain ⟨padding, mid, -, hp⟩ := bind_ok.1 hp
  obtain ⟨rfl, -⟩ := pure_ok.1 hp
  exact (defaultMagic_ok hmagic).1

theorem request2_magic {bytes : Bytes} {req : OpenConnectionRequest2}
    (h : RaknetPacket.decodeFrom bytes = .ok (.openConnectionRequest2 req)) : req.magic = defaultUnconnectedMagic := by
  obtain ⟨tail, -, hbody⟩ := RaknetPacket.decodeFrom_ok h
  obtain ⟨rest, hdec⟩ := hbody _ rfl
  obtain ⟨p, hp, hreq⟩ := map_ok.1 hdec
  cases hreq
  obtain ⟨magic, mid, hmagic, hp⟩ := bind_ok.1 hp
  obtain ⟨cookie, mid, -, hp⟩ := bind_ok.1 hp
  obtain ⟨addr, mid, -, hp⟩ := bind_ok.1 hp
  obtain ⟨mtu, mid, -, hp⟩ := bind_ok.1 hp
  obtain ⟨guid, mid, -, hp⟩ := bind_ok.1 hp
  obtain ⟨rfl, -⟩ := pure_ok.1 hp
  exact (defaultMagic_ok hmagic).1

section Offline

variable [Float64 F]

/-- A second request inserts a session exactly when it completes its handshake. -/
theorem handleRequest2_step (host : Host) (env : Env) (l : Listener F) {bytes : Bytes} (peer : SocketAddr)
    {req : OpenConnectionRequest2} (hdec : RaknetPacket.decodeFrom bytes = .ok (.openConnectionRequest2 req)) :
    OfflineStep host env l bytes peer ((l.expirePending env.now).handleRequest2 host env peer req).1
      ((l.expirePending env.now).handleRequest2 host env peer req).2 := by
  have hkept : ∀ p pc, (l.expirePending env.now).pending.lookup p = some pc → l.pending.lookup p = some pc :=
    fun p pc hp => (lookup_expirePending.1 hp).1
  -- a request that completes finds its own handshake, with its own cookie
  have hcompletes : ∀ {mtu}, l.Completes env bytes peer mtu →
    ∃ pc, (l.expirePending env.now).pending.lookup peer = some pc ∧
      req.cookie = some pc.cookie ∧ minimumMtuSize ≤ req.mtu ∧ req.mtu ≤ maximumMtuSize := by
    rintro mtu ⟨req', pc, hdec', hpc, hlive, hcookie, hlo, hhi, -⟩
    rw [hdec] at hdec'
    cases hdec'
    exact ⟨pc, lookup_expirePending.2 ⟨hpc, hlive⟩, hcookie, hlo, hhi⟩
  unfold handleRequest2
  rw [if_neg (not_not_intro (request2_magic hdec))]
  cases hpc : (l.expirePending env.now).pending.lookup peer with
  | none =>
    have hnot : ∀ mtu, ¬ l.Completes env bytes peer mtu := by
      intro mtu h
      obtain ⟨pc, hpc', -⟩ := hcompletes h
      rw [hpc] at hpc'; cases hpc'
    cases (l.expirePending env.now).sessions.lookup peer with
    | none => exact .quiet rfl hkept hnot
    | some state => exact .quiet rfl hkept hnot
  | some pc =>
    have herased : ∀ p pc', ((l.expirePending env.now).pending.erase peer).lookup p = some pc' →
        l.pending.lookup p = some pc' := by
      intro p pc' hp
      by_cases he : p = peer
      · subst he
        rw [AList.lookup_erase] at hp; cases hp
      · rw [AList.lookup_erase_ne he] at hp
        exact hkept p pc' hp
    have hnot : (req.cookie ≠ some pc.cookie ∨ req.mtu < minimumMtuSize ∨ maximumMtuSize < req.mtu) →
        ∀ mtu, ¬ l.Completes env bytes peer mtu := by
      intro hor mtu h
      obtain ⟨pc', hpc', hcookie, hlo, hhi⟩ := hcompletes h
      rw [hpc] at hpc'
      cases hpc'
      obtain hor | hor | hor := hor
      · exact hor hcookie
      · exact absurd hlo (UInt16.not_le.2 hor)
      · exact absurd hhi (UInt16.not_le.2 hor)
    dsimp only
    by_cases hcookie : req.cookie = some pc.cookie
    · rw [if_neg (not_not_intro hcookie)]
      by_cases hmtu : req.mtu < minimumMtuSize ∨ maximumMtuSize < req.mtu
      · rw [if_pos hmtu]
        exact .quiet rfl herased (hnot (.inr hmtu))
      · rw [if_neg hmtu, accept_eq]
        obtain ⟨hlo, hhi⟩ := not_or.1 hmtu
        obtain ⟨hpc, hlive⟩ := lookup_expirePending.1 hpc
        exact .accepts (min pc.mtu req.mtu)
          ⟨req, pc, hdec, hpc, hlive, hcookie, UInt16.not_lt.1 hlo, UInt16.not_lt.1 hhi, rfl⟩ rfl rfl
    · rw [if_pos hcookie]
      exact .quiet rfl herased (hnot (.inl hcookie))

/-- What an offline packet can do. -/
theorem handleOffline_cases {host : Host} {env : Env} {l l' : Listener F} {bytes : Bytes} {peer : SocketAddr}
    {out : List Output} (h : l.handleOffline host env bytes peer = some (out, l')) :
    OfflineStep host env l bytes peer out l' := by
  have hkept : ∀ p pc, (l.expirePending env.now).pending.lookup p = some pc → l.pending.lookup p = some pc :=
    fun p pc hp => (lookup_expirePending.1 hp).1
  have hnot : (∀ req, RaknetPacket.decodeFrom bytes ≠ .ok (.openConnectionRequest2 req)) →
      ∀ mtu, ¬ l.Completes env bytes peer mtu := fun hne mtu ⟨req, _, hdec, _⟩ => hne req hdec
  unfold handleOffline at h
  dsimp only at h
  split at h
  · rename_i e he
    cases h
    exact .quiet rfl hkept (hnot fun req hreq => by rw [he] at hreq; cases hreq)
  · rename_i req hdec
    cases h
    exact .quiet rfl hkept (hnot fun req hreq => by rw [hdec] at hreq; cases hreq)
  · rename_i req hdec
    cases h
    exact .quiet rfl hkept (hnot fun req hreq => by rw [hdec] at hreq; cases hreq)
  · rename_i req hdec
    obtain rfl | ⟨mtu, rfl, rfl, hroom⟩ := handleRequest1_cases h
    · exact .quiet rfl hkept (hnot fun req hreq => by rw [hdec] at hreq; cases hreq)
    · exact .issues req mtu hdec rfl rfl rfl hroom
  · rename_i req hdec
    have hstep := handleRequest2_step host env l peer hdec
    rwa [Option.some.inj h] at hstep
  · rename_i pkt _ _ _ hne hdec
    cases h
    exact .quiet rfl hkept (hnot fun req hreq => by rw [hdec] at hreq; cases hreq; exact hne req rfl)

end Offline

/-! ## Online packets -/

section Online

variable [Float64 F]

/-- A UDP packet that is a session datagram, at the session of its sender. -/
structure Handled (host : Host) (env : Env) (bytes : Bytes) (peer : SocketAddr) (state : SessionState F)
    (removed : Bool) (out : List Output) (state' : SessionState F) : Prop where
  reach : ∃ dgram rest, Datagram.decode bytes = .ok (dgram, rest) ∧
    Machine.Reach (ManagedSession.step host.start) IsBuild
    (state.managed.handleDatagram host.start dgram env.now).2 state'.managed
  removed_iff : removed = true ↔ state'.managed.state = .closed
  /-- What is sent are valid datagrams. -/
  sent : ∀ buf p, .sendTo buf p ∈ out → ∃ (d : Datagram) (tail : Bytes), buf = d.header.flags.bits :: tail ∧
    d.header.flags.contains .valid = true

/-- A packet at a session is either no datagram and nothing happens, or it is handled. -/
theorem handleIncomingUdp_cases {host : Host} {env : Env} {bytes : Bytes} {peer : SocketAddr}
    {state state' : SessionState F} {decoded removed : Bool} {out : List Output}
    (h : handleIncomingUdp host env bytes peer state = some ((decoded, removed), out, state')) :
    decoded = false ∧ removed = false ∧ state' = state ∧ (∃ e, Datagram.decode bytes = .error e) ∨
      decoded = true ∧ Handled host env bytes peer state removed out state' := by
  unfold handleIncomingUdp at h
  split at h
  · rename_i e he
    cases h
    exact .inl ⟨rfl, rfl, rfl, e, he⟩
  · rename_i dgram rest hdec
    refine .inr ?_
    cases hhandled : state.managed.handleDatagram host.start dgram env.now with
    | mk res managed =>
      have hsame := maybeAnnounceConnection_managed env peer { state with managed }
      cases hannounced : maybeAnnounceConnection env peer { state with managed } with
      | mk announced state₁ =>
        rw [hannounced] at hsame
        rw [hhandled] at h
        dsimp only at h hsame
        rw [hannounced] at h
        dsimp only at h
        obtain ⟨⟨sent, managed'⟩, hflush, h⟩ := Option.bind_eq_some_iff.1 h
        have hreach := flushManaged_reach hflush
        rw [hsame] at hreach
        have hmanaged : managed = (state.managed.handleDatagram host.start dgram env.now).2 := by rw [hhandled]
        rw [hmanaged] at hreach
        -- everything but the flush goes to the application
        have hsent : ∀ buf p, .sendTo buf p ∈ delivered peer res ++ announced ++ sent →
            ∃ (d : Datagram) (tail : Bytes), buf = d.header.flags.bits :: tail ∧
            d.header.flags.contains .valid = true := by
          intro buf p hmem
          rcases List.mem_append.1 hmem with hmem | hmem
          · rcases List.mem_append.1 hmem with hmem | hmem
            · exact absurd hmem not_sendTo_mem_delivered
            · rw [show announced =
                (maybeAnnounceConnection env peer { state with managed }).1 by rw [hannounced]] at hmem
              exact absurd hmem not_sendTo_mem_announced
          · obtain ⟨d, bytes, ho, henc, -, hvalid⟩ := flushManaged_sent hflush _ hmem
            cases ho
            obtain ⟨tail, rfl⟩ := d.encode_head henc
            exact ⟨d, tail, rfl, hvalid⟩
        dsimp only at h
        split at h
        · rename_i hclosed
          cases h
          refine ⟨rfl, ⟨dgram, rest, hdec, hreach⟩, iff_of_true rfl hclosed, fun buf p hmem => ?_⟩
          rcases List.mem_append.1 hmem with hmem | hmem
          · exact hsent buf p hmem
          · exact absurd hmem not_sendTo_mem_closedNotice
        · rename_i hopen
          cases h
          exact ⟨rfl, ⟨dgram, rest, hdec, hreach⟩, iff_of_false (by simp) hopen, hsent⟩

/-- The offline requests are exactly those with an offline identifier. -/
theorem isOfflinePacketId_of_ok {bytes : Bytes} {id : UInt8} {tail : Bytes} {pkt : RaknetPacket}
    (hbytes : bytes = id :: tail) (hdec : RaknetPacket.decodeFrom bytes = .ok pkt)
    (hoff : pkt.isOfflineRequest = true) : isOfflinePacketId id = true := by
  obtain ⟨tail', heq, -⟩ := RaknetPacket.decodeFrom_ok hdec
  rw [hbytes] at heq
  cases heq
  have hids : ([0x01, 0x02, 0x05, 0x07] : List UInt8).all isOfflinePacketId = true := by decide
  exact List.all_eq_true.1 hids pkt.id (RaknetPacket.offlineRequest_id hoff)

/-- What a received UDP packet does. -/
inductive DispatchStep (host : Host) (env : Env) (l : Listener F) (bytes : Bytes) (peer : SocketAddr)
    (out : List Output) (l' : Listener F) : Prop
  | online (state state' : SessionState F) (removed : Bool) (hlookup : l.sessions.lookup peer = some state)
    (hhandled : Handled host env bytes peer state removed out state') (hpending : l'.pending = l.pending)
    (hsessions : l'.sessions = if removed then (l.sessions.replace peer state').erase peer
      else l.sessions.replace peer state')
  | offline (hundecoded : ∀ state, l.sessions.lookup peer = some state → ∃ e, Datagram.decode bytes = .error e)
    (hstep : l.handleOffline host env bytes peer = some (out, l'))
  | garbage (state : SessionState F) (hlookup : l.sessions.lookup peer = some state)
    (hundecoded : ∃ e, Datagram.decode bytes = .error e) (hsessions : l'.sessions = l.sessions.erase peer)
    (hpending : ∀ p pc, l'.pending.lookup p = some pc → l.pending.lookup p = some pc)
  | ignored (hlookup : l.sessions.lookup peer = none) (hnot : ∀ mtu, ¬ l.Completes env bytes peer mtu) (hsame : l' = l)

theorem dispatchDatagram_cases {host : Host} {env : Env} {l l' : Listener F} {bytes : Bytes} {peer : SocketAddr}
    {out : List Output} (h : l.dispatchDatagram host env bytes peer = some (out, l')) :
    DispatchStep host env l bytes peer out l' := by
  unfold dispatchDatagram at h
  cases hlookup : l.sessions.lookup peer with
  | none =>
    rw [hlookup] at h
    dsimp only at h
    split at h
    · cases h
      exact .ignored hlookup (fun mtu ⟨req, _, hdec, _⟩ => by cases hdec) rfl
    · rename_i id tail
      split at h
      · exact .offline (fun state hs => by rw [hlookup] at hs; cases hs) h
      · rename_i hid
        cases h
        exact .ignored hlookup (fun mtu ⟨req, _, hdec, _⟩ => hid (isOfflinePacketId_of_ok rfl hdec rfl)) rfl
  | some state =>
    rw [hlookup] at h
    dsimp only at h
    obtain ⟨⟨⟨decoded, removed⟩, out', state'⟩, hincoming, hnext⟩ := Option.bind_eq_some_iff.1 h
    dsimp only at hnext
    -- a datagram that does not decode leaves the session alone and is offered to the offline handler
    obtain ⟨rfl, rfl, rfl, herr⟩ | ⟨rfl, hhandled⟩ := handleIncomingUdp_cases hincoming
    · rw [HashMap.replace_lookup hlookup] at hnext
      simp only [Bool.not_false, if_true, Bool.false_eq_true, if_false] at hnext
      split at hnext
      · cases hnext
      · rename_i id tail
        split at hnext
        · exact .offline (fun _ _ => herr) hnext
        · rename_i hid
          cases handleOffline_cases hnext with
          | quiet hsessions hpending hnot => exact .garbage _ hlookup herr hsessions hpending
          | issues req mtu hdec hsessions hpending hout => exact absurd (isOfflinePacketId_of_ok rfl hdec rfl) hid
          | accepts mtu hcompletes hsessions hpending =>
            obtain ⟨req, pc, hdec, -⟩ := hcompletes
            exact absurd (isOfflinePacketId_of_ok rfl hdec rfl) hid
    · simp only [Bool.not_true, Bool.false_eq_true, if_false] at hnext
      cases hnext
      refine .online state state' removed hlookup hhandled ?_ ?_
      · split <;> rfl
      · split <;> rfl

/-- The session that an outbound message finds or inserts. -/
theorem sessionOrInsert_cases {host : Host} {env : Env} {l l₁ : Listener F} {peer : SocketAddr} {state : SessionState F}
    (h : l.sessionOrInsert host env peer = (state, l₁)) :
    l₁.pending = l.pending ∧ peer ∈ l₁.sessions ∧ (∀ q, q ≠ peer → l₁.sessions.lookup q = l.sessions.lookup q) ∧
      (l.sessions.lookup peer = some state ∨
      state = SessionState.fresh host peer host.config.maxMtu.toNat env.now) := by
  unfold sessionOrInsert at h
  split at h
  · rename_i st hlookup
    cases h
    exact ⟨rfl, HashMap.mem_of_lookup hlookup, fun _ _ => rfl, .inl hlookup⟩
  · cases h
    exact ⟨rfl, (AList.mem_insert _).2 (.inl rfl), fun q hq => AList.lookup_insert_ne hq, .inr rfl⟩

/-- What an outbound message does: the session of its peer, an old or a new one, queues it and is flushed. -/
theorem handleOutgoingMsg_cases {host : Host} {env : Env} {l l' : Listener F} {msg : OutboundMsg} {out : List Output}
    (h : l.handleOutgoingMsg host env msg = some (out, l')) :
    ∃ state l₁ managed, l.sessionOrInsert host env msg.peer = (state, l₁) ∧
      Machine.Reach (ManagedSession.step host.start) IsBuild
        (state.managed.queueAppPacket msg.packet msg.reliability msg.channel msg.priority env.clock).2 managed ∧
      l' = { l₁ with sessions := l₁.sessions.replace msg.peer { state with managed } } := by
  unfold handleOutgoingMsg at h
  cases hstate : l.sessionOrInsert host env msg.peer with
  | mk state l₁ =>
    rw [hstate] at h
    obtain ⟨⟨sent, managed⟩, hflush, hnext⟩ := Option.bind_eq_some_iff.1 h
    cases hnext
    exact ⟨state, l₁, managed, rfl, flushManaged_reach hflush, rfl⟩

end Online

/-! ## The tick -/

section Tick

variable [Float64 F]

/-- A session over the tick: it is ticked and flushed, and kept if it is not closed then. -/
def Ticked (host : Host) (env : Env) (iter : IterOrder SplitEntries.Item) (state : SessionState F)
    (after : Option (SessionState F)) : Prop :=
  ∃ managed, Machine.Reach (ManagedSession.step host.start) IsBuild (state.managed.onTick host.start env.now iter).2
    managed ∧ after = if managed.state = .closed then none else some { state with managed }

theorem tickLoop_spec {host : Host} {env : Env} {splits : SocketAddr → IterOrder SplitEntries.Item}
    {walk : List (HashMap.Item SocketAddr (SessionState F))} {sessions sessions' : HashMap SocketAddr (SessionState F)}
    {out : List Output} {dead : List SocketAddr} (hnodup : walk.NodupKeys) (hmem : ∀ item ∈ walk, item.1 ∈ sessions)
    (h : tickLoop host env splits walk sessions = some (out, dead, sessions')) :
    sessions'.len = sessions.len ∧
      (∀ p, p ∉ walk.keys → p ∉ dead ∧ sessions'.lookup p = sessions.lookup p) ∧
      ∀ item ∈ walk, ∃ managed, Machine.Reach (ManagedSession.step host.start) IsBuild
        (item.2.managed.onTick host.start env.now (splits item.1)).2 managed ∧
        sessions'.lookup item.1 = some { item.2 with managed } ∧ (item.1 ∈ dead ↔ managed.state = .closed) := by
  induction walk generalizing sessions sessions' out dead with
  | nil =>
    cases h
    exact ⟨rfl, fun p _ => ⟨by simp, rfl⟩, by simp⟩
  | cons item walk ih =>
    obtain ⟨peer, state⟩ := item
    rw [tickLoop] at h
    obtain ⟨⟨sent, managed⟩, hflush, hloop⟩ := Option.bind_eq_some_iff.1 h
    obtain ⟨⟨out', dead', sessions₂⟩, hrest, hnext⟩ := Option.bind_eq_some_iff.1 hloop
    have hreach := flushManaged_reach hflush
    obtain ⟨hpeer, hnodup⟩ := List.nodupKeys_cons.1 hnodup
    have hin : peer ∈ sessions := hmem _ (List.mem_cons_self ..)
    obtain ⟨hlen, hother, hticked⟩ := ih hnodup
      (fun item hitem => AList.mem_replace.2 (hmem item (List.mem_cons_of_mem _ hitem))) hrest
    obtain ⟨hdead', hlookup⟩ := hother peer hpeer
    rw [HashMap.lookup_replace_self hin] at hlookup
    -- the closed ones are put on the list, whatever else
    have hres : sessions' = sessions₂ ∧ (∀ p, p ∈ dead ↔ p = peer ∧ managed.state = .closed ∨ p ∈ dead') := by
      dsimp only at hnext
      split at hnext
      · rename_i hclosed
        cases hnext
        exact ⟨rfl, fun p => by simp [hclosed]⟩
      · rename_i hopen
        cases hnext
        exact ⟨rfl, fun p => by simp [hopen]⟩
    obtain ⟨rfl, hdead⟩ := hres
    refine ⟨hlen.trans (HashMap.len_replace _ _ _), fun p hp => ?_, fun item hitem => ?_⟩
    · rw [List.keys_cons, List.mem_cons, not_or] at hp
      obtain ⟨hnot, hsame⟩ := hother p hp.2
      refine ⟨fun hd => ?_, hsame.trans (HashMap.lookup_replace_ne hp.1 _ _)⟩
      exact ((hdead p).1 hd).elim (fun hd => hp.1 hd.1) hnot
    · rcases List.mem_cons.1 hitem with rfl | hitem
      · refine ⟨managed, hreach, hlookup, (hdead peer).trans ?_⟩
        exact ⟨fun hd => hd.elim And.right fun hd => absurd hd hdead', fun hc => .inl ⟨rfl, hc⟩⟩
      · obtain ⟨managed', hreach', hlookup', hiff⟩ := hticked item hitem
        refine ⟨managed', hreach', hlookup', (hdead item.1).trans ?_⟩
        have hkey : item.1 ∈ walk.keys := List.mem_keys_of_mem hitem
        have hne : item.1 ≠ peer := fun he => hpeer (he ▸ hkey)
        exact ⟨fun hd => hiff.1 (hd.resolve_left fun hd => hne hd.1), fun hc => .inr (hiff.2 hc)⟩

/-- What the tick does. -/
theorem tickSessions_cases {host : Host} {env : Env} {l l' : Listener F}
    {iter : IterOrder (HashMap.Item SocketAddr (SessionState F))} {splits : SocketAddr → IterOrder SplitEntries.Item}
    {out : List Output} (h : l.tickSessions host env iter splits = some (out, l')) :
    l'.pending = l.pending ∧ l'.sessions.len ≤ l.sessions.len ∧
      (∀ p, l.sessions.lookup p = none → l'.sessions.lookup p = none) ∧
      ∀ p state, l.sessions.lookup p = some state → Ticked host env (splits p) state (l'.sessions.lookup p) := by
  obtain ⟨⟨out', dead, sessions⟩, hloop, hnext⟩ := Option.bind_eq_some_iff.1 h
  cases hnext
  have hperm := iter.perm l.sessions.entries
  have hnodup : (iter.order l.sessions.entries).NodupKeys := (List.perm_nodupKeys hperm).2 l.sessions.nodupKeys
  obtain ⟨hlen, hother, hticked⟩ := tickLoop_spec hnodup
    (fun item hitem => List.mem_keys_of_mem (hperm.mem_iff.1 hitem)) hloop
  refine ⟨rfl, ?_, fun p hp => ?_, fun p state hp => ?_⟩
  · exact (HashMap.len_eraseAll_le sessions dead).trans hlen.le
  · have hnot : p ∉ (iter.order l.sessions.entries).keys := by
      exact fun hk => AList.lookup_eq_none.1 hp ((hperm.map Sigma.fst).mem_iff.1 hk)
    show (dead.foldl _ sessions).lookup p = none
    rw [HashMap.lookup_eraseAll, (hother p hnot).2, hp, ite_self]
  · have hitem : (⟨p, state⟩ : HashMap.Item SocketAddr (SessionState F)) ∈ iter.order l.sessions.entries :=
      hperm.mem_iff.2 (AList.mem_lookup_iff.1 hp)
    obtain ⟨managed, hreach, hlookup, hdead⟩ := hticked _ hitem
    refine ⟨managed, hreach, ?_⟩
    show (dead.foldl _ sessions).lookup p = _
    rw [HashMap.lookup_eraseAll, hlookup]
    simp only [hdead]

end Tick

end Listener

end BedrockRs.Raknet.Transport
