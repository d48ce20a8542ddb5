/-
Whom the listener writes to. A handler of a packet or of a message sends to the peer it handles only, and
the tick sends to each peer what its session has to send. A session that has just been inserted has
nothing to say: as long as it is only ticked, all that it sends are datagrams.
-/
import BedrockRs.Raknet.Session.Mtu
import BedrockRs.Raknet.Session.Outgoing
import BedrockRs.Raknet.Transport.Handshake
import BedrockRs.Raknet.Transport.Routing

namespace BedrockRs.Raknet.Transport

open Lib

@[simp] theorem packetsTo_nil (peer : SocketAddr) : packetsTo peer [] = [] := rfl

@[simp] theorem packetsTo_append (peer : SocketAddr) (as bs : List Output) :
    packetsTo peer (as ++ bs) = packetsTo peer as ++ packetsTo peer bs := List.filterMap_append

theorem mem_packetsTo {peer : SocketAddr} {out : List Output} {bytes : Bytes} :
    bytes ∈ packetsTo peer out ↔ .sendTo bytes peer ∈ out := by
  unfold packetsTo
  rw [List.mem_filterMap]
  constructor
  · rintro ⟨o, ho, hsome⟩
    cases o with
    | sendTo buf p =>
      dsimp only at hsome
      split at hsome
      · rename_i hp
        cases hsome
        rw [← hp]
        exact ho
      · cases hsome
    | toApp p item => cases hsome
    | newConnection p => cases hsome
  · intro h
    exact ⟨_, h, if_pos rfl⟩

/-- Every packet of an output goes to `peer`. -/
def SentOnlyTo (peer : SocketAddr) (out : List Output) : Prop := ∀ bytes q, .sendTo bytes q ∈ out → q = peer

theorem SentOnlyTo.append {peer : SocketAddr} {as bs : List Output} (ha : SentOnlyTo peer as)
    (hb : SentOnlyTo peer bs) : SentOnlyTo peer (as ++ bs) := by
  intro bytes q hmem
  rcases List.mem_append.1 hmem with hmem | hmem
  · exact ha bytes q hmem
  · exact hb bytes q hmem

theorem SentOnlyTo.nil (peer : SocketAddr) : SentOnlyTo peer [] := by
  intro bytes q hmem
  cases hmem

theorem SentOnlyTo.packetsTo_eq_nil {peer q : SocketAddr} {out : List Output} (h : SentOnlyTo q out) (hne : q ≠ peer) :
    packetsTo peer out = [] := by
  rw [List.eq_nil_iff_forall_not_mem]
  intro bytes hmem
  exact hne (h bytes peer (mem_packetsTo.1 hmem)).symm

theorem sendUnconnectedPacket_sentOnlyTo (peer : SocketAddr) (pkt : RaknetPacket) :
    SentOnlyTo peer (sendUnconnectedPacket peer pkt) := by
  rintro bytes q hmem
  cases List.mem_singleton.1 hmem
  rfl

namespace Listener

variable {F : Type} [Float64 F]

theorem flushManaged_sentOnlyTo {start : Instant} {m m' : ManagedSession F} {peer : SocketAddr} {now : Instant}
    {tick : Option (IterOrder SplitEntries.Item)} {out : List Output}
    (h : flushManaged start m peer now tick = some (out, m')) : SentOnlyTo peer out := by
  intro bytes q hmem
  obtain ⟨buf, hbuf⟩ := flushManaged_sendTo h _ hmem
  cases hbuf
  rfl

omit [Float64 F] in
theorem handleRequest1_sentOnlyTo {host : Host} {env : Env} {l l' : Listener F} {peer : SocketAddr}
    {req : OpenConnectionRequest1} {out : List Output} (h : l.handleRequest1 host env peer req = some (out, l')) :
    SentOnlyTo peer out := by
  unfold handleRequest1 at h
  split at h
  · cases h
    exact .nil peer
  · split at h
    · cases h
      exact sendUnconnectedPacket_sentOnlyTo _ _
    · obtain ⟨mtu, -, h⟩ := Option.bind_eq_some_iff.1 h
      dsimp only at h
      split at h
      · cases h
        exact sendUnconnectedPacket_sentOnlyTo _ _
      · split at h
        · cases h
          exact .nil peer
        · cases h
          exact sendUnconnectedPacket_sentOnlyTo _ _

theorem handleRequest2_sentOnlyTo (host : Host) (env : Env) (l : Listener F) (peer : SocketAddr)
    (req : OpenConnectionRequest2) : SentOnlyTo peer (l.handleRequest2 host env peer req).1 := by
  unfold handleRequest2
  split
  · exact .nil peer
  · split
    · split
      · exact sendUnconnectedPacket_sentOnlyTo _ _
      · exact .nil peer
    · dsimp only
      split
      · exact .nil peer
      · split
        · exact sendUnconnectedPacket_sentOnlyTo _ _
        · rw [accept_eq]
          exact sendUnconnectedPacket_sentOnlyTo _ _

theorem handleOffline_sentOnlyTo {host : Host} {env : Env} {l l' : Listener F} {bytes : Bytes} {peer : SocketAddr}
    {out : List Output} (h : l.handleOffline host env bytes peer = some (out, l')) : SentOnlyTo peer out := by
  have hpong : ∀ req : UnconnectedPing, SentOnlyTo peer (host.pong env peer req) := by
    intro req
    unfold Host.pong
    split
    · exact .nil peer
    · exact sendUnconnectedPacket_sentOnlyTo _ _
  unfold handleOffline at h
  dsimp only at h
  split at h
  · cases h
    exact .nil peer
  · cases h
    exact hpong _
  · cases h
    exact hpong _
  · exact handleRequest1_sentOnlyTo h
  · rename_i req hdec
    have hout := handleRequest2_sentOnlyTo host env (l.expirePending env.now) peer req
    rwa [Option.some.inj h] at hout
  · cases h
    exact .nil peer

theorem handleIncomingUdp_sentOnlyTo {host : Host} {env : Env} {bytes : Bytes} {peer : SocketAddr}
    {state state' : SessionState F} {flags : Bool × Bool} {out : List Output}
    (h : handleIncomingUdp host env bytes peer state = some (flags, out, state')) : SentOnlyTo peer out := by
  unfold handleIncomingUdp at h
  split at h
  · cases h
    exact .nil peer
  · rename_i dgram rest hdec
    cases hhandled : state.managed.handleDatagram host.start dgram env.now with
    | mk res managed =>
      cases hannounced : maybeAnnounceConnection env peer { state with managed } with
      | mk announced state₁ =>
        rw [hhandled] at h
        dsimp only at h
        rw [hannounced] at h
        dsimp only at h
        obtain ⟨⟨sent, managed'⟩, hflush, h⟩ := Option.bind_eq_some_iff.1 h
        have hsent : SentOnlyTo peer (delivered peer res ++ announced ++ sent) := by
          refine SentOnlyTo.append (SentOnlyTo.append ?_ ?_) (flushManaged_sentOnlyTo hflush)
          · intro buf q hmem
            exact absurd hmem not_sendTo_mem_delivered
          · intro buf q hmem
            have hnot : .sendTo buf q ∉ (maybeAnnounceConnection env peer { state with managed }).1 :=
              not_sendTo_mem_announced
            rw [hannounced] at hnot
            exact absurd hmem hnot
        dsimp only at h
        split at h
        · cases h
          refine SentOnlyTo.append hsent ?_
          intro buf q hmem
          exact absurd hmem not_sendTo_mem_closedNotice
        · cases h
          exact hsent

theorem dispatchDatagram_sentOnlyTo {host : Host} {env : Env} {l l' : Listener F} {bytes : Bytes} {peer : SocketAddr}
    {out : List Output} (h : l.dispatchDatagram host env bytes peer = some (out, l')) : SentOnlyTo peer out := by
  unfold dispatchDatagram at h
  split at h
  · obtain ⟨⟨⟨decoded, removed⟩, out', state'⟩, hincoming, h⟩ := Option.bind_eq_some_iff.1 h
    dsimp only at h
    split at h
    · split at h
      · cases h
      · split at h
        · exact handleOffline_sentOnlyTo h
        · exact handleOffline_sentOnlyTo h
    · cases h
      exact handleIncomingUdp_sentOnlyTo hincoming
  · split at h
    · cases h
      exact .nil peer
    · split at h
      · exact handleOffline_sentOnlyTo h
      · cases h
        exact .nil peer

theorem handleOutgoingMsg_sentOnlyTo {host : Host} {env : Env} {l l' : Listener F} {msg : OutboundMsg}
    {out : List Output} (h : l.handleOutgoingMsg host env msg = some (out, l')) : SentOnlyTo msg.peer out := by
  obtain ⟨⟨sent, managed⟩, hflush, h⟩ := Option.bind_eq_some_iff.1 h
  cases h
  exact flushManaged_sentOnlyTo hflush

/-! ## Sessions that were only ticked -/

/-- A session with this MTU that was made and has done nothing since. -/
structure Idle (mtu : Nat) (m : ManagedSession F) : Prop where
  mtu : m.inner.mtu = mtu
  state : m.state = .unconnected
  unqueued : m.queuedReliableBytes = 0
  /-- Nothing is queued and nothing was sent. -/
  quiet : m.inner.Outgoing (fun _ => False) (fun _ => False)

theorem Idle.fresh (host : Host) (peer : SocketAddr) (mtu : Nat) (now : Instant) :
    Idle mtu (SessionState.fresh host peer mtu now : SessionState F).managed :=
  ⟨rfl, rfl, rfl, .new mtu _⟩

section Idle

variable {mtu : Nat} {m : ManagedSession F} (h : Idle mtu m)
include h

/-- There is nothing to build a datagram from. -/
theorem Idle.build (now : Instant) : Idle mtu (m.buildDatagram now).2 := by
  have hnone : (m.inner.buildDataDatagram now).1 = none := by
    cases hout : (m.inner.buildDataDatagram now).1 with
    | none => rfl
    | some o =>
      obtain ⟨p, hp⟩ := List.exists_mem_of_ne_nil _ (Session.buildDataDatagram_some hout).1
      exact (h.quiet.built hout p hp).elim
  have hinner := h.quiet.buildDataDatagram now fun o ho => by
    rw [hnone] at ho
    cases ho
  have hmtu := m.inner.step_mtu (.buildDataDatagram now)
  unfold ManagedSession.buildDatagram
  cases hbuilt : m.inner.buildDataDatagram now with
  | mk out inner =>
    rw [hbuilt] at hnone hinner
    rw [Session.step, hbuilt] at hmtu
    cases hnone
    exact ⟨hmtu.trans h.mtu, h.state, h.unqueued, hinner⟩

omit [Float64 F] in
theorem Idle.beforeTick (start now : Instant) : m.beforeTick start now = m := by
  have hconn : m.isConnected = false := by
    unfold ManagedSession.isConnected
    rw [h.state]
  rw [ManagedSession.beforeTick_of_not_connected hconn]
  unfold ManagedSession.enforceQueueLimit
  split
  · rw [h.unqueued, if_neg (Nat.not_lt_zero _)]
  · rfl

/-- All that a tick of an idle session sends are its ACKs and NAKs. -/
theorem Idle.onTick (start now : Instant) (iter : IterOrder SplitEntries.Item) :
    Idle mtu (m.onTick start now iter).2 ∧
      ∀ d ∈ (m.onTick start now iter).1, d.asRef.header.flags.contains .valid = true := by
  have hvalid : ∀ o ∈ (m.inner.onTick now iter).1, o.asRef.header.flags.contains .valid = true := by
    intro o ho
    have hack : ∀ (s : Session F), ∀ o ∈ s.buildAckDatagram.1, o.asRef.header.flags.contains .valid = true := by
      intro s o ho
      unfold Session.buildAckDatagram at ho
      dsimp only at ho
      split at ho
      · cases ho
      · cases ho
        exact (by decide : (DatagramFlags.valid.or .ack).contains .valid = true)
    have hnak : ∀ (s : Session F), ∀ o ∈ s.buildNakDatagram.1, o.asRef.header.flags.contains .valid = true := by
      intro s o ho
      unfold Session.buildNakDatagram at ho
      dsimp only at ho
      split at ho
      · cases ho
      · cases ho
        exact (by decide : (DatagramFlags.valid.or .nack).contains .valid = true)
    -- nothing is tracked, so nothing is resent
    rcases Session.onTick_out ho with ho | ho | ho
    · exact (h.quiet.tracked _ ho).elim
    · exact hack _ o ho
    · exact hnak _ o ho
  obtain ⟨hout, hinner⟩ := m.onTick_eq start now iter
  rw [h.beforeTick] at hout hinner
  constructor
  · constructor
    · have hmtu := m.inner.step_mtu (.onTick now iter)
      rw [Session.step] at hmtu
      rw [hinner, hmtu, h.mtu]
    · rw [(m.onTick_state start now iter).1, h.beforeTick, h.state]
    · rw [m.onTick_queued, h.beforeTick, h.unqueued]
    · rw [hinner]
      exact h.quiet.onTick now iter
  · rw [hout]
    exact hvalid

theorem Idle.reach {start : Instant} {m' : ManagedSession F}
    (hreach : Machine.Reach (ManagedSession.step start) IsBuild m m') : Idle mtu m' := by
  refine hreach.inv (fun s op hop hs => ?_) h
  cases op with
  | buildDatagram now => exact hs.build now
  | _ => exact hop.elim

end Idle

/-- A packet that is neither of the two replies of the handshake. -/
def NoReply (bytes : Bytes) : Prop := bytes.head? ≠ some 0x06 ∧ bytes.head? ≠ some 0x08

theorem noReply_of_valid {d : Datagram} {bytes : Bytes} (henc : d.encode = .ok bytes)
    (hvalid : d.header.flags.contains .valid = true) : NoReply bytes := by
  obtain ⟨tail, rfl⟩ := d.encode_head henc
  rw [DatagramFlags.contains] at hvalid
  constructor
  · intro h
    rw [List.head?_cons, Option.some.injEq] at h
    rw [h] at hvalid
    revert hvalid
    decide
  · intro h
    rw [List.head?_cons, Option.some.injEq] at h
    rw [h] at hvalid
    revert hvalid
    decide

theorem Idle.flush {mtu : Nat} {start : Instant} {m m' : ManagedSession F} {peer : SocketAddr} {now : Instant}
    {iter : IterOrder SplitEntries.Item} {out : List Output} (h : Idle mtu m)
    (hflush : flushManaged start m peer now (some iter) = some (out, m')) :
    ∀ bytes ∈ packetsTo peer out, NoReply bytes := by
  intro bytes hmem
  obtain ⟨d, buf, hout, henc, hsource⟩ := flushManaged_mem hflush _ (mem_packetsTo.1 hmem)
  cases hout
  apply noReply_of_valid henc
  rcases hsource with ⟨d', hd', rfl⟩ | hvalid
  · exact (h.onTick start now iter).2 d' hd'
  · exact hvalid

section Tick

variable {host : Host} {env : Env} {splits : SocketAddr → IterOrder SplitEntries.Item}

/-- What a tick sends to a peer comes from the flush of that peer's session. -/
theorem tickLoop_packetsTo {P : Bytes → Prop} {peer : SocketAddr}
    {walk : List (HashMap.Item SocketAddr (SessionState F))} {sessions sessions' : HashMap SocketAddr (SessionState F)}
    {out : List Output} {dead : List SocketAddr}
    (hwalk : ∀ item ∈ walk, item.1 = peer → ∀ sent managed,
      flushManaged host.start item.2.managed peer env.now (some (splits peer)) = some (sent, managed) →
        ∀ bytes ∈ packetsTo peer sent, P bytes)
    (h : tickLoop host env splits walk sessions = some (out, dead, sessions')) :
    ∀ bytes ∈ packetsTo peer out, P bytes := by
  induction walk generalizing sessions sessions' out dead with
  | nil =>
    cases h
    simp
  | cons item walk ih =>
    obtain ⟨q, state⟩ := item
    rw [tickLoop] at h
    obtain ⟨⟨sent, managed⟩, hflush, h⟩ := Option.bind_eq_some_iff.1 h
    obtain ⟨⟨out', dead', sessions₂⟩, hrest, h⟩ := Option.bind_eq_some_iff.1 h
    have hlater := ih (fun item hitem => hwalk item (List.mem_cons_of_mem _ hitem)) hrest
    have hsent : ∀ bytes ∈ packetsTo peer sent, P bytes := by
      by_cases hq : q = peer
      · subst hq
        exact hwalk _ (List.mem_cons_self ..) rfl sent managed hflush
      · rw [(flushManaged_sentOnlyTo hflush).packetsTo_eq_nil hq]
        simp
    -- notices go to streams, and other sessions send to their own peers
    have hnotice : packetsTo peer (closedNotice q { state with managed }) = [] := by
      rw [List.eq_nil_iff_forall_not_mem]
      intro bytes hmem
      exact not_sendTo_mem_closedNotice (mem_packetsTo.1 hmem)
    dsimp only at h
    intro bytes hmem
    split at h
    · cases h
      rw [packetsTo_append, packetsTo_append, hnotice, List.append_nil] at hmem
      exact (List.mem_append.1 hmem).elim (hsent bytes) (hlater bytes)
    · cases h
      rw [packetsTo_append] at hmem
      exact (List.mem_append.1 hmem).elim (hsent bytes) (hlater bytes)

/-- A tick keeps an idle session and sends it no reply. -/
theorem tickSessions_idle {l l' : Listener F} {iter : IterOrder (HashMap.Item SocketAddr (SessionState F))}
    {out : List Output} {peer : SocketAddr} {mtu : Nat} (h : l.tickSessions host env iter splits = some (out, l'))
    (hidle : ∀ state, l.sessions.lookup peer = some state → Idle mtu state.managed) :
    (l'.sessions.lookup peer = none ↔ l.sessions.lookup peer = none) ∧
      (∀ state, l'.sessions.lookup peer = some state → Idle mtu state.managed) ∧
      ∀ bytes ∈ packetsTo peer out, NoReply bytes := by
  obtain ⟨-, -, hnone, hticked⟩ := tickSessions_cases h
  have hout : ∀ bytes ∈ packetsTo peer out, NoReply bytes := by
    obtain ⟨⟨out', dead, sessions⟩, hloop, hnext⟩ := Option.bind_eq_some_iff.1 h
    cases hnext
    refine tickLoop_packetsTo (fun item hitem hpeer sent managed hflush => ?_) hloop
    have hmem : item ∈ l.sessions.entries := (iter.perm l.sessions.entries).mem_iff.1 hitem
    obtain ⟨q, state⟩ := item
    cases hpeer
    exact (hidle state (AList.mem_lookup_iff.2 hmem)).flush hflush
  cases hlookup : l.sessions.lookup peer with
  | none =>
    rw [hnone peer hlookup]
    exact ⟨iff_of_true rfl rfl, fun state hs => (nomatch hs), hout⟩
  | some state =>
    obtain ⟨managed, hreach, hafter⟩ := hticked peer state hlookup
    have hmanaged := ((hidle state hlookup).onTick host.start env.now (splits peer)).1.reach hreach
    rw [hmanaged.state, if_neg (by decide)] at hafter
    rw [hafter]
    refine ⟨iff_of_false (Option.some_ne_none _) (Option.some_ne_none _), fun state' hs => ?_, hout⟩
    cases hs
    exact hmanaged

end Tick

end Listener

end BedrockRs.Raknet.Transport
