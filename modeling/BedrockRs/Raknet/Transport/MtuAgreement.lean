/-
The two ends of an offline handshake agree on the MTU. The client settles on an MTU from a reply of the
listener, and the listener on one from the pending handshake and the client's second request. A cookie
that is drawn once ties the two together: the request is taken only for the very handshake whose reply
the client has used. So however late, often or disorderly the packets arrive, a session that is
inserted has the MTU that the client has asked for, and a client that is done has such a session.
-/
import BedrockRs.Raknet.Transport.Addressed
import BedrockRs.Raknet.Transport.Cookie

namespace BedrockRs.Raknet.Transport

open Lib

/-! ## Cookies and MTUs -/

theorem clampMtu_bounds {v lo hi mtu : UInt16} (h : clampMtu v lo hi = some mtu) : lo ≤ mtu ∧ mtu ≤ hi := by
  unfold clampMtu at h
  simp only [UInt16.lt_iff_toNat_lt] at h
  simp only [UInt16.le_iff_toNat_le]
  split at h
  · cases h
  · rename_i hle
    cases h
    split
    · omega
    · split
      · omega
      · omega

namespace ClientHandshake

theorem toNat_min (a b : UInt16) : (min a b).toNat = min a.toNat b.toNat := by
  show (if a ≤ b then a else b).toNat = _
  simp only [UInt16.le_iff_toNat_le]
  split <;> omega

theorem mtuFinal_toNat (usedMtu serverMtu : UInt16) :
    (mtuFinal usedMtu serverMtu).toNat = min (max 576 (min usedMtu.toNat 1400)) serverMtu.toNat := by
  have hlo : minimumMtuSize.toNat = 576 := rfl
  have hhi : maximumMtuSize.toNat = 1400 := rfl
  unfold mtuFinal
  rw [toNat_min]
  simp only [UInt16.lt_iff_toNat_lt]
  congr 1
  split
  · omega
  · split
    · omega
    · omega

/-- The listener's minimum of its own MTU and the client's is the client's. -/
theorem min_mtuFinal (usedMtu serverMtu : UInt16) :
    min serverMtu (mtuFinal usedMtu serverMtu) = mtuFinal usedMtu serverMtu := by
  have h := mtuFinal_toNat usedMtu serverMtu
  show (if serverMtu ≤ mtuFinal usedMtu serverMtu then serverMtu else mtuFinal usedMtu serverMtu) = _
  split
  · rename_i hle
    rw [UInt16.le_iff_toNat_le] at hle
    apply UInt16.toNat_inj.1
    omega
  · rfl

end ClientHandshake

namespace Network

variable {F : Type} [Float64 F] (parties : Parties)

/-! ## Offers -/

omit [Float64 F] in
/-- Among the past actions is a first request of the client for which the listener draws this cookie and
settles on this MTU. -/
def Offered (past : List (Action F)) (cookie : UInt32) (mtu : UInt16) : Prop :=
  ∃ env bytes req, .serverReceives env bytes ∈ past ∧
    RaknetPacket.decodeFrom bytes = .ok (.openConnectionRequest1 req) ∧ req.protocolVersion = raknetProtocolVersion ∧
    cookie = parties.host.generateCookie env parties.peer ∧
    clampMtu (mtuGuess parties.peer req) minimumMtuSize parties.host.config.maxMtu = some mtu

section Offered

variable {parties} {past : List (Action F)} {cookie : UInt32} {mtu : UInt16}

omit [Float64 F] in
theorem Offered.concat (h : Offered parties past cookie mtu) (a : Action F) :
    Offered parties (past ++ [a]) cookie mtu := by
  obtain ⟨env, bytes, req, hmem, hrest⟩ := h
  exact ⟨env, bytes, req, List.mem_append_left _ hmem, hrest⟩

omit [Float64 F] in
theorem Offered.unambiguous (h : Offered parties past cookie mtu) : IsUnambiguous cookie := by
  obtain ⟨env, bytes, req, -, -, -, rfl, -⟩ := h
  exact parties.host.generateCookie_unambiguous env parties.peer

omit [Float64 F] in
theorem Offered.bounds (h : Offered parties past cookie mtu) :
    minimumMtuSize ≤ mtu ∧ mtu ≤ parties.host.config.maxMtu := by
  obtain ⟨env, bytes, req, -, -, -, -, hclamp⟩ := h
  exact clampMtu_bounds hclamp

/-- In a list in which no value is drawn twice, a value tells where it was drawn. -/
theorem eq_of_nodup_filterMap {α β : Type} {f : α → Option β} {l : List α} (h : (l.filterMap f).Nodup) {a a' : α}
    {b : β} (ha : a ∈ l) (ha' : a' ∈ l) (hb : f a = some b) (hb' : f a' = some b) : a = a' := by
  by_contra hne
  have hpairwise : l.Pairwise fun a a' => ∀ b ∈ f a, ∀ b' ∈ f a', b ≠ b' := List.pairwise_filterMap.1 h
  have : Std.Symm fun a a' => ∀ b ∈ f a, ∀ b' ∈ f a', b ≠ b' :=
    ⟨fun x y hxy b hb b' hb' heq => hxy b' hb' b hb heq.symm⟩
  exact hpairwise.forall ha ha' hne b hb b hb' rfl

omit [Float64 F] in
/-- A cookie that is drawn once was offered with one MTU. -/
theorem Offered.unique (hdistinct : (past.filterMap (drawn parties)).Nodup) {mtu' : UInt16}
    (h : Offered parties past cookie mtu) (h' : Offered parties past cookie mtu') : mtu = mtu' := by
  obtain ⟨env, bytes, req, hmem, hdec, hversion, hcookie, hclamp⟩ := h
  obtain ⟨env', bytes', req', hmem', hdec', hversion', hcookie', hclamp'⟩ := h'
  have hdrawn : drawn (F := F) parties (.serverReceives env bytes) = some cookie := by
    simp only [drawn, hdec, hversion, if_true, hcookie]
  have hdrawn' : drawn (F := F) parties (.serverReceives env' bytes') = some cookie := by
    simp only [drawn, hdec', hversion', if_true, hcookie']
  cases eq_of_nodup_filterMap hdistinct hmem hmem' hdrawn hdrawn'
  rw [hdec] at hdec'
  cases hdec'
  rw [hclamp] at hclamp'
  cases hclamp'
  rfl

end Offered

/-! ## The client's packets -/

/-- A first request, as the client sends it. -/
def IsProbe (bytes : Bytes) : Prop :=
  bytes.length ≤ 2048 ∧ ∃ req, RaknetPacket.decodeFrom bytes = .ok (.openConnectionRequest1 req)

/-- A second request with this cookie and MTU, as the client sends it. -/
def IsAsk (cookie : UInt32) (mtu : UInt16) (bytes : Bytes) : Prop :=
  bytes.length ≤ 2048 ∧ ∃ req, RaknetPacket.decodeFrom bytes = .ok (.openConnectionRequest2 req) ∧
    req.cookie = some cookie ∧ req.mtu = mtu

theorem length_magic : defaultUnconnectedMagic.toList.length = 16 := rfl

theorem request1_isProbe {mtu : UInt16} (h : mtu ∈ mtuSizes) :
    ∃ buf, (ClientHandshake.request1 mtu).encode = .ok buf ∧ IsProbe buf := by
  refine ⟨_, rfl, ?_, _, RaknetPacket.decodeFrom_request1 _ _⟩
  have hmtu : mtu.toNat ≤ 1400 := by
    simp only [mtuSizes, List.mem_cons, List.not_mem_nil, or_false] at h
    rcases h with rfl | rfl | rfl
    · decide
    · decide
    · decide
  simp only [ClientHandshake.request1, RaknetPacket.encodeBody, OpenConnectionRequest1.encode, Put.eobPadding,
    List.length_cons, List.length_append, List.length_replicate, length_magic, List.length_nil]
  omega

theorem length_socketAddr (addr : SocketAddr) : addr.encode.length ≤ 29 := by
  cases addr <;> simp [SocketAddr.encode, Put.u16, Put.u16le, Put.u32]

theorem request2_isAsk (server : SocketAddr) (clientGuid : UInt64) {reply1 : OpenConnectionReply1} (usedMtu : UInt16)
    {cookie : UInt32} (hcookie : reply1.cookie = some cookie) (h : IsUnambiguous cookie) :
    ∃ buf, (ClientHandshake.request2 server clientGuid reply1 usedMtu).encode = .ok buf ∧
      IsAsk cookie (ClientHandshake.mtuFinal usedMtu reply1.mtu) buf := by
  refine ⟨_, rfl, ?_, ?_⟩
  · have haddr := length_socketAddr server
    simp only [ClientHandshake.request2, RaknetPacket.encodeBody, OpenConnectionRequest2.encode, hcookie, Put.u16,
      Put.u32, Put.u64, Put.bool, List.length_cons, List.length_append, length_magic, List.length_nil]
    omega
  · unfold ClientHandshake.request2
    rw [hcookie]
    exact ⟨_, RaknetPacket.decodeFrom_request2 h _ _ _ _, rfl, rfl⟩

/-! ## The listener's packets -/

/-- The reply to a first request, as the listener sends it. -/
def reply1Bytes (cookie : UInt32) (mtu : UInt16) : Bytes :=
  0x06 :: OpenConnectionReply1.encode ⟨defaultUnconnectedMagic, parties.host.serverGuid, some cookie, mtu⟩

/-- A packet that is received is told by its first byte. -/
theorem head_of_decodeFrom {bytes : Bytes} {n : Nat} {pkt : RaknetPacket}
    (h : RaknetPacket.decodeFrom (bytes.take n) = .ok pkt) : bytes.head? = some pkt.id := by
  obtain ⟨tail, htake, -⟩ := RaknetPacket.decodeFrom_ok h
  cases bytes with
  | nil =>
    rw [List.take_nil] at htake
    cases htake
  | cons b rest =>
    cases n with
    | zero => cases htake
    | succ n =>
      rw [List.take_succ_cons] at htake
      cases htake
      rfl

theorem decodeFrom_reply1Bytes (cookie : UInt32) (mtu : UInt16) :
    RaknetPacket.decodeFrom ((reply1Bytes parties cookie mtu).take receiveBuffer) =
      .ok (.openConnectionReply1 ⟨defaultUnconnectedMagic, parties.host.serverGuid, some cookie, mtu⟩) := by
  have hlen : (reply1Bytes parties cookie mtu).length ≤ receiveBuffer := by
    simp [reply1Bytes, OpenConnectionReply1.encode, Put.u64, Put.bool, Put.u32, Put.u16, receiveBuffer]
  rw [List.take_of_length_le hlen]
  exact RaknetPacket.decodeFrom_reply1 _ _ _

/-! ## What the listener does with the client's packets -/

section Server

variable {parties} {l l' : Listener F} {env : Env} {bytes : Bytes} {out : List Output}

/-- A connection request goes to the offline handler, whether its sender has a session or not. -/
theorem dispatchDatagram_request {host : Host} {peer : SocketAddr} {pkt : RaknetPacket} (hlen : bytes.length ≤ 2048)
    (hdec : RaknetPacket.decodeFrom bytes = .ok pkt) (hoff : pkt.isOfflineRequest = true) (hping : pkt.isPing = false) :
    l.dispatchDatagram host env bytes peer = l.handleOffline host env bytes peer := by
  cases hlookup : l.sessions.lookup peer with
  | some state =>
    cases hd : Datagram.decode bytes with
    | error e => exact Listener.dispatchDatagram_of_error host env hlookup hdec hoff hd
    | ok p =>
      have hconfused := ((RaknetPacket.datagram_decode_iff hdec hoff hlen).1 ⟨p.1, p.2, hd⟩).1
      rw [hping] at hconfused
      cases hconfused
  | none =>
    obtain ⟨tail, hbytes, -⟩ := RaknetPacket.decodeFrom_ok hdec
    have hid := Listener.isOfflinePacketId_of_ok hbytes hdec hoff
    unfold Listener.dispatchDatagram
    simp only [hlookup]
    rw [hbytes]
    exact if_pos hid

omit [Float64 F] in
theorem packetsTo_sendUnconnectedPacket (peer : SocketAddr) (pkt : RaknetPacket) :
    packetsTo peer (sendUnconnectedPacket peer pkt) = [pkt.id :: pkt.encodeBody] := by
  unfold sendUnconnectedPacket packetsTo RaknetPacket.encode
  simp

theorem noReply_cons (id : UInt8) (tail : Bytes) (h6 : id ≠ 0x06) (h8 : id ≠ 0x08) : Listener.NoReply (id :: tail) := by
  constructor
  · rw [List.head?_cons]
    exact fun h => h6 (Option.some.inj h)
  · rw [List.head?_cons]
    exact fun h => h8 (Option.some.inj h)

/-- A probe is answered with an offer, or with nothing that concerns the handshake. -/
theorem probe_cases {host : Host} {peer : SocketAddr} (h : IsProbe bytes)
    (hstep : l.step host (.datagram env bytes peer) = some (out, l')) :
    l'.sessions = l.sessions ∧
      ((∀ b ∈ packetsTo peer out, Listener.NoReply b) ∧
      (∀ pc, l'.pending.lookup peer = some pc → l.pending.lookup peer = some pc) ∨
        ∃ req mtu, RaknetPacket.decodeFrom bytes = .ok (.openConnectionRequest1 req) ∧
          req.protocolVersion = raknetProtocolVersion ∧
          clampMtu (mtuGuess peer req) minimumMtuSize host.config.maxMtu = some mtu ∧
          l'.pending.lookup peer = some (Listener.issued host env peer mtu) ∧
          packetsTo peer out = [0x06 :: OpenConnectionReply1.encode
            ⟨defaultUnconnectedMagic, host.serverGuid, some (host.generateCookie env peer), mtu⟩]) := by
  obtain ⟨hlen, req, hdec⟩ := h
  have hkept : ∀ pc, (l.expirePending env.now).pending.lookup peer = some pc → l.pending.lookup peer = some pc :=
    fun pc hp => (Listener.lookup_expirePending.1 hp).1
  rw [Listener.step, dispatchDatagram_request hlen hdec rfl rfl] at hstep
  unfold Listener.handleOffline at hstep
  rw [hdec] at hstep
  dsimp only at hstep
  unfold Listener.handleRequest1 at hstep
  rw [if_neg (not_not_intro (Listener.request1_magic hdec))] at hstep
  split at hstep
  · cases hstep
    refine ⟨rfl, .inl ⟨?_, hkept⟩⟩
    rw [packetsTo_sendUnconnectedPacket]
    simp only [List.mem_singleton, forall_eq]
    exact noReply_cons 0x19 _ (by decide) (by decide)
  · -- the right version: the MTU is clamped, and there must be room for one more pending handshake
    rename_i hversion
    obtain ⟨mtu, hmtu, hstep⟩ := Option.bind_eq_some_iff.1 hstep
    dsimp only at hstep
    split at hstep
    · cases hstep
      refine ⟨rfl, .inl ⟨?_, hkept⟩⟩
      rw [packetsTo_sendUnconnectedPacket]
      simp only [List.mem_singleton, forall_eq]
      exact noReply_cons 0x14 _ (by decide) (by decide)
    · split at hstep
      · cases hstep
        exact ⟨rfl, .inl ⟨by simp, hkept⟩⟩
      · cases hstep
        refine ⟨rfl, .inr ⟨req, mtu, hdec, not_not.1 hversion, hmtu, AList.lookup_insert _, ?_⟩⟩
        exact packetsTo_sendUnconnectedPacket _ _

/-- A second request is answered with a reply only if there is a session then: the one there was, or the one
that it completes. -/
theorem ask_cases {host : Host} {peer : SocketAddr} {cookie : UInt32} {mtu : UInt16} (h : IsAsk cookie mtu bytes)
    (hstep : l.step host (.datagram env bytes peer) = some (out, l')) :
    (∀ pc, l'.pending.lookup peer = some pc → l.pending.lookup peer = some pc) ∧
      (∀ b ∈ packetsTo peer out, b.head? ≠ some 0x06) ∧
      (l'.sessions = l.sessions ∧ (∀ b ∈ packetsTo peer out, b.head? = some 0x08 → l.sessions.lookup peer ≠ none) ∨
        ∃ pc, l.pending.lookup peer = some pc ∧ pc.cookie = cookie ∧
          l'.sessions = l.sessions.insert peer (SessionState.fresh host peer (min pc.mtu mtu).toNat env.now)) := by
  obtain ⟨hlen, req, hdec, hcookie, rfl⟩ := h
  have hkept : ∀ pc, (l.expirePending env.now).pending.lookup peer = some pc → l.pending.lookup peer = some pc :=
    fun pc hp => (Listener.lookup_expirePending.1 hp).1
  have herased : ∀ pc, ((l.expirePending env.now).pending.erase peer).lookup peer = some pc →
      l.pending.lookup peer = some pc := by
    intro pc hp
    rw [AList.lookup_erase] at hp
    cases hp
  -- one packet at most goes to the peer, and it is never a first reply
  have hquiet : ∀ (pkt : RaknetPacket) (b : UInt8), pkt.id = b → b ≠ 0x06 →
      ∀ b ∈ packetsTo peer (sendUnconnectedPacket peer pkt), b.head? ≠ some 0x06 := by
    intro pkt id hid hne b hb
    rw [packetsTo_sendUnconnectedPacket, List.mem_singleton] at hb
    rw [hb, List.head?_cons, hid]
    exact fun h => hne (Option.some.inj h)
  rw [Listener.step, dispatchDatagram_request hlen hdec rfl rfl] at hstep
  unfold Listener.handleOffline at hstep
  rw [hdec] at hstep
  dsimp only at hstep
  unfold Listener.handleRequest2 at hstep
  rw [if_neg (not_not_intro (Listener.request2_magic hdec))] at hstep
  split at hstep
  · split at hstep
    · -- no pending handshake: the reply is repeated to a peer that has a session
      rename_i state hlookup
      cases hstep
      refine ⟨hkept, hquiet _ 0x08 rfl (by decide), .inl ⟨rfl, fun b _ _ hnone => ?_⟩⟩
      have hsome : l.sessions.lookup peer = some state := hlookup
      rw [hnone] at hsome
      cases hsome
    · cases hstep
      exact ⟨hkept, by simp, .inl ⟨rfl, by simp⟩⟩
  · -- a pending one is used up, whether its cookie matches or not
    rename_i pc hpc
    dsimp only at hstep
    split at hstep
    · cases hstep
      exact ⟨herased, by simp, .inl ⟨rfl, by simp⟩⟩
    · rename_i hmatch
      rw [not_not, hcookie, Option.some.injEq] at hmatch
      split at hstep
      · cases hstep
        refine ⟨herased, hquiet _ 0x12 rfl (by decide), .inl ⟨rfl, fun b hb hhead => ?_⟩⟩
        rw [packetsTo_sendUnconnectedPacket, List.mem_singleton] at hb
        rw [hb, List.head?_cons] at hhead
        cases hhead
      · rw [Listener.accept_eq] at hstep
        cases hstep
        exact ⟨herased, hquiet _ 0x08 rfl (by decide), .inr ⟨pc, hkept pc hpc, hmatch.symm, rfl⟩⟩

/-- A packet of another sender leaves a peer's session and handshake alone. -/
theorem dispatchDatagram_other {host : Host} {peer q : SocketAddr} (hne : peer ≠ q)
    (h : l.dispatchDatagram host env bytes q = some (out, l')) :
    l'.sessions.lookup peer = l.sessions.lookup peer ∧ ∀ pc, l'.pending.lookup peer = some pc →
      l.pending.lookup peer = some pc := by
  cases Listener.dispatchDatagram_cases h with
  | online state state' removed hlookup hhandled hpending hsessions =>
    rw [hsessions, hpending]
    refine ⟨?_, fun pc => id⟩
    split
    · rw [AList.lookup_erase_ne hne, HashMap.lookup_replace_ne hne]
    · rw [HashMap.lookup_replace_ne hne]
  | offline hundecoded hoffline =>
    cases Listener.handleOffline_cases hoffline with
    | quiet hsessions hpending hnot => exact ⟨by rw [hsessions], hpending peer⟩
    | issues req mtu hdec hsessions hpending hout =>
      refine ⟨by rw [hsessions], fun pc hpc => ?_⟩
      rw [hpending, AList.lookup_insert_ne hne] at hpc
      exact (Listener.lookup_expirePending.1 hpc).1
    | accepts mtu hcompletes hsessions hpending =>
      refine ⟨by rw [hsessions, AList.lookup_insert_ne hne], fun pc hpc => ?_⟩
      rw [hpending, AList.lookup_erase_ne hne] at hpc
      exact (Listener.lookup_expirePending.1 hpc).1
  | garbage state hlookup hundecoded hsessions hpending =>
    exact ⟨by rw [hsessions, AList.lookup_erase_ne hne], hpending peer⟩
  | ignored hlookup hnot hsame =>
    rw [hsame]
    exact ⟨rfl, fun pc => id⟩

/-- An event that does not concern the client's address leaves its handshake alone, and its session too unless
it is a tick. -/
theorem other_cases {host : Host} {peer : SocketAddr} {e : Listener.Event F} (hother : ¬ e.concerns peer)
    (hstep : l.step host e = some (out, l')) {mtu : Nat}
    (hidle : ∀ state, l.sessions.lookup peer = some state → Listener.Idle mtu state.managed) :
    (∀ pc, l'.pending.lookup peer = some pc → l.pending.lookup peer = some pc) ∧
      (∀ b ∈ packetsTo peer out, Listener.NoReply b) ∧
      (l'.sessions.lookup peer = none ↔ l.sessions.lookup peer = none) ∧
      ∀ state, l'.sessions.lookup peer = some state → Listener.Idle mtu state.managed := by
  cases e with
  | datagram env bytes q =>
    obtain ⟨hsessions, hpending⟩ := dispatchDatagram_other (fun h => hother h.symm) hstep
    rw [(Listener.dispatchDatagram_sentOnlyTo hstep).packetsTo_eq_nil hother, hsessions]
    exact ⟨hpending, by simp, Iff.rfl, hidle⟩
  | outbound env msg =>
    have hsent := Listener.handleOutgoingMsg_sentOnlyTo hstep
    obtain ⟨state, l₁, managed, hstate, -, rfl⟩ := Listener.handleOutgoingMsg_cases hstep
    obtain ⟨hpending, -, hsame, -⟩ := Listener.sessionOrInsert_cases hstate
    have hne : peer ≠ msg.peer := fun h => hother h.symm
    rw [hsent.packetsTo_eq_nil hother]
    dsimp only
    rw [hpending, HashMap.lookup_replace_ne hne, hsame peer hne]
    exact ⟨fun pc => id, by simp, Iff.rfl, hidle⟩
  | tick env iter splits =>
    obtain ⟨hpending, -⟩ := Listener.tickSessions_cases hstep
    obtain ⟨hnone, hidle', hout⟩ := Listener.tickSessions_idle hstep hidle
    rw [hpending]
    exact ⟨fun pc => id, hout, hnone, hidle'⟩

end Server

/-! ## The invariant -/

/-- No second request was sent, and the client has no session. -/
def Unasked (l : Listener F) (toServer : List Bytes) : Prop :=
  (∀ bytes ∈ toServer, IsProbe bytes) ∧ l.sessions.lookup parties.peer = none

/-- The client has asked for an MTU, with the cookie of an offer, and any session it has is an idle one with this
MTU. -/
structure Asked (past : List (Action F)) (l : Listener F) (toServer : List Bytes) (mtu : UInt16) : Prop where
  offer : ∃ cookie serverMtu usedMtu, Offered parties past cookie serverMtu ∧
    mtu = ClientHandshake.mtuFinal usedMtu serverMtu ∧ ∀ bytes ∈ toServer, IsProbe bytes ∨ IsAsk cookie mtu bytes
  session : ∀ state, l.sessions.lookup parties.peer = some state → Listener.Idle mtu.toNat state.managed

/-- What holds of the listener and of the client's packets where the client is. -/
def Stage (past : List (Action F)) (l : Listener F) (toServer : List Bytes) : ClientHandshake → Prop
  | .probing mtu rest | .awaitingReply1 mtu _ rest => (∀ m ∈ mtu :: rest, m ∈ mtuSizes) ∧ Unasked parties l toServer
  | .requesting reply1 _ =>
    Unasked parties l toServer ∧ ∃ cookie, reply1.cookie = some cookie ∧ Offered parties past cookie reply1.mtu
  | .awaitingReply2 mtu => Asked parties past l toServer mtu
  | .done handshake => Asked parties past l toServer handshake.mtu ∧ l.sessions.lookup parties.peer ≠ none
  | .failed => True

/-- The invariant of a handshake that has not failed: a pending handshake of the client and every reply to a first
request come from an offer, a reply to a second request tells that there is a session, and the client's
stage is as it should be. -/
structure Going (past : List (Action F)) (net : Network F) : Prop where
  pending : ∀ pc, net.listener.pending.lookup parties.peer = some pc → Offered parties past pc.cookie pc.mtu
  offered : ∀ bytes ∈ net.toClient, bytes.head? = some 0x06 →
    ∃ cookie mtu, Offered parties past cookie mtu ∧ bytes = reply1Bytes parties cookie mtu
  answered : ∀ bytes ∈ net.toClient, bytes.head? = some 0x08 → net.listener.sessions.lookup parties.peer ≠ none
  stage : Stage parties past net.listener net.toServer net.client

section Going

variable {parties} {past : List (Action F)} {net net' : Network F} {l : Listener F} {toServer : List Bytes}

omit [Float64 F] in
theorem Asked.concat {mtu : UInt16} (h : Asked parties past l toServer mtu) (a : Action F) :
    Asked parties (past ++ [a]) l toServer mtu := by
  obtain ⟨cookie, serverMtu, usedMtu, hoffered, hmtu, hsent⟩ := h.offer
  exact ⟨⟨cookie, serverMtu, usedMtu, hoffered.concat a, hmtu, hsent⟩, h.session⟩

omit [Float64 F] in
theorem Stage.concat {client : ClientHandshake} (h : Stage parties past l toServer client) (a : Action F) :
    Stage parties (past ++ [a]) l toServer client := by
  cases client with
  | probing mtu rest | awaitingReply1 mtu attempts rest => exact h
  | requesting reply1 usedMtu =>
    obtain ⟨hunasked, cookie, hcookie, hoffered⟩ := h
    exact ⟨hunasked, cookie, hcookie, hoffered.concat a⟩
  | awaitingReply2 mtu => exact Asked.concat h a
  | done handshake => exact ⟨h.1.concat a, h.2⟩
  | failed => trivial

omit [Float64 F] in
/-- What was true of the past stays true. -/
theorem Going.concat (h : Going parties past net) (a : Action F) : Going parties (past ++ [a]) net := by
  refine ⟨fun pc hpc => (h.pending pc hpc).concat a, fun bytes hmem hhead => ?_, h.answered, h.stage.concat a⟩
  obtain ⟨cookie, mtu, hoffered, hbytes⟩ := h.offered bytes hmem hhead
  exact ⟨cookie, mtu, hoffered.concat a, hbytes⟩

/-! ## The client's steps -/

omit [Float64 F] in
theorem stage_nextProbe {rest : List UInt16} (hrest : ∀ m ∈ rest, m ∈ mtuSizes) (h : Unasked parties l toServer) :
    Stage parties past l toServer (.nextProbe rest) := by
  cases rest with
  | nil => trivial
  | cons mtu rest => exact ⟨hrest, h⟩

omit [Float64 F] in
theorem stage_nextAttempt {mtu : UInt16} {rest : List UInt16} (attempts : Nat) (hrest : ∀ m ∈ mtu :: rest, m ∈ mtuSizes)
    (h : Unasked parties l toServer) : Stage parties past l toServer (.nextAttempt mtu attempts rest) := by
  unfold ClientHandshake.nextAttempt
  split
  · exact ⟨hrest, h⟩
  · exact stage_nextProbe (fun m hm => hrest m (List.mem_cons_of_mem _ hm)) h

omit [Float64 F] in
theorem Unasked.sent {buf : Bytes} (h : Unasked parties l toServer) (hbuf : IsProbe buf) :
    Unasked parties l (toServer ++ [buf]) := by
  refine ⟨fun bytes hmem => ?_, h.2⟩
  rcases List.mem_append.1 hmem with hmem | hmem
  · exact h.1 bytes hmem
  · rw [List.mem_singleton.1 hmem]
    exact hbuf

omit [Float64 F] in
/-- Sending: a probe, or the second request with the MTU that the client settles on. -/
theorem stage_send {client : ClientHandshake} (h : Stage parties past l toServer client) (ok : Bool) :
    Stage parties past l (toServer ++ (client.step parties.server parties.clientGuid (.send ok)).1.toList)
      (client.step parties.server parties.clientGuid (.send ok)).2 := by
  cases client with
  | probing mtu rest =>
    obtain ⟨hsizes, hunasked⟩ := h
    obtain ⟨buf, hbuf, hprobe⟩ := request1_isProbe (hsizes mtu (List.mem_cons_self ..))
    simp only [ClientHandshake.step, hbuf]
    cases ok with
    | true => exact ⟨hsizes, hunasked.sent hprobe⟩
    | false =>
      rw [if_neg Bool.false_ne_true, Option.toList_none, List.append_nil]
      exact stage_nextProbe (fun m hm => hsizes m (List.mem_cons_of_mem _ hm)) hunasked
  -- the offer's cookie is echoed, and the MTU is the smaller one of both sides
  | requesting reply1 usedMtu =>
    obtain ⟨hunasked, cookie, hcookie, hoffered⟩ := h
    obtain ⟨buf, hbuf, hask⟩ := request2_isAsk parties.server parties.clientGuid usedMtu hcookie hoffered.unambiguous
    simp only [ClientHandshake.step, hbuf]
    cases ok with
    | true =>
      refine ⟨⟨cookie, reply1.mtu, usedMtu, hoffered, rfl, fun bytes hmem => ?_⟩, fun state hs => ?_⟩
      · rcases List.mem_append.1 hmem with hmem | hmem
        · exact .inl (hunasked.1 bytes hmem)
        · rw [List.mem_singleton.1 hmem]
          exact .inr hask
      · rw [hunasked.2] at hs
        cases hs
    | false => trivial
  | awaitingReply1 mtu attempts rest | awaitingReply2 mtu | done handshake | failed =>
    simpa only [ClientHandshake.step, Option.toList_none, List.append_nil] using h

omit [Float64 F] in
/-- Waiting without an answer: another attempt, another probe, or the end. -/
theorem stage_nothing {client : ClientHandshake} (h : Stage parties past l toServer client) :
    Stage parties past l toServer (client.step parties.server parties.clientGuid .nothing).2 := by
  cases client with
  | awaitingReply1 mtu attempts rest => exact stage_nextAttempt attempts h.1 h.2
  | awaitingReply2 mtu => trivial
  | probing mtu rest | requesting reply1 usedMtu | done handshake | failed => exact h

omit [Float64 F] in
/-- Receiving: a reply to a probe comes from an offer, and a reply to the second request ends the handshake. What
comes from elsewhere is no reply. -/
theorem stage_receive {client : ClientHandshake} {bytes : Bytes} {source : SocketAddr}
    (h : Stage parties past l toServer client)
    (hoffered : source = parties.server → bytes.head? = some 0x06 →
      ∃ cookie mtu, Offered parties past cookie mtu ∧ bytes = reply1Bytes parties cookie mtu)
    (hanswered : source = parties.server → bytes.head? = some 0x08 → l.sessions.lookup parties.peer ≠ none) :
    Stage parties past l toServer (client.step parties.server parties.clientGuid (.receive bytes source)).2 := by
  cases client with
  | awaitingReply1 mtu attempts rest =>
    obtain ⟨hsizes, hunasked⟩ := h
    unfold ClientHandshake.step
    dsimp only
    split
    · rename_i hsource
      split
      · rename_i reply1 hdec
        obtain ⟨cookie, serverMtu, hoffer, hbytes⟩ := hoffered hsource (head_of_decodeFrom hdec)
        rw [hbytes, decodeFrom_reply1Bytes] at hdec
        cases hdec
        exact ⟨hunasked, cookie, rfl, hoffer⟩
      · exact stage_nextAttempt attempts hsizes hunasked
    · exact stage_nextAttempt attempts hsizes hunasked
  -- the client looks at the source and the id of the second reply only
  | awaitingReply2 mtu =>
    unfold ClientHandshake.step
    dsimp only
    split
    · rename_i hsource
      split
      · rename_i reply2 hdec
        exact ⟨h, hanswered hsource (head_of_decodeFrom hdec)⟩
      · exact h
    · exact h
  | probing mtu rest | requesting reply1 usedMtu | done handshake | failed => exact h

omit [Float64 F] in
/-- Only a `send` sends. -/
theorem clientStep_toServer (net : Network F) {input : ClientInput} (h : ∀ ok, input ≠ .send ok) :
    (net.clientStep parties input).toServer = net.toServer := by
  have hnone : (net.client.step parties.server parties.clientGuid input).1 = none := by
    cases input with
    | send ok => exact absurd rfl (h ok)
    | receive bytes source =>
      cases net.client with
      | awaitingReply1 mtu attempts rest | awaitingReply2 mtu =>
        unfold ClientHandshake.step
        dsimp only
        split
        · split
          · rfl
          · rfl
        · rfl
      | probing mtu rest | requesting reply1 usedMtu | done handshake | failed => rfl
    | nothing => cases net.client <;> rfl
  unfold clientStep
  dsimp only
  rw [hnone]
  exact List.append_nil _

omit [Float64 F] in
/-- A step of the client keeps the invariant, if what it receives from the server was sent by it. -/
theorem Going.clientStep (h : Going parties past net) {input : ClientInput}
    (hreceived : ∀ bytes, input = .receive bytes parties.server → bytes ∈ net.toClient) :
    Going parties past (net.clientStep parties input) := by
  refine ⟨h.pending, h.offered, h.answered, ?_⟩
  cases input with
  | send ok => exact stage_send h.stage ok
  | receive bytes source =>
    rw [clientStep_toServer net (fun ok => ClientInput.noConfusion)]
    apply stage_receive h.stage
    · rintro rfl
      exact h.offered bytes (hreceived bytes rfl)
    · rintro rfl
      exact h.answered bytes (hreceived bytes rfl)
  | nothing =>
    rw [clientStep_toServer net (fun ok => ClientInput.noConfusion)]
    exact stage_nothing h.stage

/-! ## The listener's steps -/

theorem serverStep_some {e : Listener.Event F} (h : net.serverStep parties e = some net') :
    ∃ out l, net.listener.step parties.host e = some (out, l) ∧
      net' = { net with listener := l, toClient := net.toClient ++ packetsTo parties.peer out } := by
  obtain ⟨⟨out, l⟩, hstep, hnet⟩ := Option.bind_eq_some_iff.1 h
  cases hnet
  exact ⟨out, l, hstep, rfl⟩

omit [Float64 F] in
/-- A client that has not asked has no session; otherwise any session it has is idle, with the MTU that it has
asked for. A step that keeps absent sessions absent and idle ones idle keeps the stage. -/
theorem Stage.sessions {client : ClientHandshake} {l' : Listener F} (h : Stage parties past l toServer client)
    (hkept : ∀ mtu, (∀ state, l.sessions.lookup parties.peer = some state → Listener.Idle mtu state.managed) →
      (l'.sessions.lookup parties.peer = none ↔ l.sessions.lookup parties.peer = none) ∧
        ∀ state, l'.sessions.lookup parties.peer = some state → Listener.Idle mtu state.managed) :
    Stage parties past l' toServer client := by
  have hunasked : Unasked parties l toServer → Unasked parties l' toServer := by
    rintro ⟨hsent, hnone⟩
    refine ⟨hsent, ((hkept 0 fun state hs => ?_).1).2 hnone⟩
    rw [hnone] at hs
    cases hs
  have hasked : ∀ {mtu}, Asked parties past l toServer mtu → Asked parties past l' toServer mtu :=
    fun ha => ⟨ha.offer, (hkept _ ha.session).2⟩
  cases client with
  | probing mtu rest | awaitingReply1 mtu attempts rest => exact ⟨h.1, hunasked h.2⟩
  | requesting reply1 usedMtu => exact ⟨hunasked h.1, h.2⟩
  | awaitingReply2 mtu => exact hasked h
  | done handshake => exact ⟨hasked h.1, fun hnone => h.2 ((hkept _ h.1.session).1.1 hnone)⟩
  | failed => trivial

omit [Float64 F] in
/-- Any session of the client is idle. -/
theorem Stage.idle {client : ClientHandshake} (h : Stage parties past l toServer client) (hgoing : client ≠ .failed) :
    ∃ mtu, ∀ state, l.sessions.lookup parties.peer = some state → Listener.Idle mtu state.managed := by
  have hunasked : Unasked parties l toServer → ∀ state, l.sessions.lookup parties.peer = some state →
      Listener.Idle 0 state.managed := by
    rintro ⟨-, hnone⟩ state hs
    rw [hnone] at hs
    cases hs
  cases client with
  | probing mtu rest | awaitingReply1 mtu attempts rest => exact ⟨0, hunasked h.2⟩
  | requesting reply1 usedMtu => exact ⟨0, hunasked h.1⟩
  | awaitingReply2 mtu => exact ⟨_, h.session⟩
  | done handshake => exact ⟨_, h.1.session⟩
  | failed => exact absurd rfl hgoing

omit [Float64 F] in
/-- What the client has sent: a probe, or the one second request. When a session with its MTU is inserted, the
stage is as it should be. -/
theorem Stage.sent {client : ClientHandshake} {bytes : Bytes} (h : Stage parties past l toServer client)
    (hgoing : client ≠ .failed) (hmem : bytes ∈ toServer) :
    IsProbe bytes ∨ ∃ cookie serverMtu usedMtu, Offered parties past cookie serverMtu ∧
      IsAsk cookie (ClientHandshake.mtuFinal usedMtu serverMtu) bytes ∧
      ∀ (l' : Listener F) state, l'.sessions.lookup parties.peer = some state →
        Listener.Idle (ClientHandshake.mtuFinal usedMtu serverMtu).toNat state.managed →
        Stage parties past l' toServer client := by
  -- after the first reply every packet is a probe or the second request with the final MTU
  have hasked : ∀ {mtu}, Asked parties past l toServer mtu →
      IsProbe bytes ∨ ∃ cookie serverMtu usedMtu, Offered parties past cookie serverMtu ∧
        IsAsk cookie (ClientHandshake.mtuFinal usedMtu serverMtu) bytes ∧
        mtu = ClientHandshake.mtuFinal usedMtu serverMtu := by
    intro mtu ha
    obtain ⟨cookie, serverMtu, usedMtu, hoffered, rfl, hsent⟩ := ha.offer
    rcases hsent bytes hmem with hprobe | hask
    · exact .inl hprobe
    · exact .inr ⟨cookie, serverMtu, usedMtu, hoffered, hask, rfl⟩
  have hinserted : ∀ {mtu} {l' : Listener F} {state}, Asked parties past l toServer mtu →
      l'.sessions.lookup parties.peer = some state → Listener.Idle mtu.toNat state.managed →
      Asked parties past l' toServer mtu := by
    intro mtu l' state ha hs hidle
    refine ⟨ha.offer, fun state' hs' => ?_⟩
    rw [hs] at hs'
    cases hs'
    exact hidle
  cases client with
  | probing mtu rest | awaitingReply1 mtu attempts rest => exact .inl (h.2.1 bytes hmem)
  | requesting reply1 usedMtu => exact .inl (h.1.1 bytes hmem)
  | awaitingReply2 mtu =>
    rcases hasked h with hprobe | ⟨cookie, serverMtu, usedMtu, hoffered, hask, rfl⟩
    · exact .inl hprobe
    · exact .inr ⟨cookie, serverMtu, usedMtu, hoffered, hask, fun l' state hs hidle => hinserted h hs hidle⟩
  | done handshake =>
    rcases hasked h.1 with hprobe | ⟨cookie, serverMtu, usedMtu, hoffered, hask, hmtu⟩
    · exact .inl hprobe
    · refine .inr ⟨cookie, serverMtu, usedMtu, hoffered, hask, fun l' state hs hidle => ?_⟩
      rw [← hmtu] at hidle
      refine ⟨hinserted h.1 hs hidle, fun hnone => ?_⟩
      rw [hs] at hnone
      cases hnone
  | failed => exact absurd rfl hgoing

omit [Float64 F] in
/-- What a step of the listener has to keep, where the session of the client does not go away. -/
theorem Going.listener (h : Going parties past net) {out : List Output}
    (hpending : ∀ pc, l.pending.lookup parties.peer = some pc → Offered parties past pc.cookie pc.mtu)
    (hoffered : ∀ b ∈ packetsTo parties.peer out, b.head? = some 0x06 →
      ∃ cookie mtu, Offered parties past cookie mtu ∧ b = reply1Bytes parties cookie mtu)
    (hanswered : ∀ b ∈ packetsTo parties.peer out, b.head? = some 0x08 → l.sessions.lookup parties.peer ≠ none)
    (hkept : l.sessions.lookup parties.peer = none → net.listener.sessions.lookup parties.peer = none)
    (hstage : Stage parties past l net.toServer net.client) :
    Going parties past { net with listener := l, toClient := net.toClient ++ packetsTo parties.peer out } := by
  constructor
  · exact hpending
  · intro b hb hhead
    rcases List.mem_append.1 hb with hb | hb
    · exact h.offered b hb hhead
    · exact hoffered b hb hhead
  · intro b hb hhead
    rcases List.mem_append.1 hb with hb | hb
    · exact fun hnone => h.answered b hb hhead (hkept hnone)
    · exact hanswered b hb hhead
  · exact hstage

omit [Float64 F] in
/-- The same for a step that leaves the sessions alone. -/
theorem Going.listener_same (h : Going parties past net) {out : List Output}
    (hsessions : l.sessions = net.listener.sessions)
    (hpending : ∀ pc, l.pending.lookup parties.peer = some pc → Offered parties past pc.cookie pc.mtu)
    (hoffered : ∀ b ∈ packetsTo parties.peer out, b.head? = some 0x06 →
      ∃ cookie mtu, Offered parties past cookie mtu ∧ b = reply1Bytes parties cookie mtu)
    (hanswered : ∀ b ∈ packetsTo parties.peer out, b.head? = some 0x08 →
      net.listener.sessions.lookup parties.peer ≠ none) :
    Going parties past { net with listener := l, toClient := net.toClient ++ packetsTo parties.peer out } := by
  apply h.listener hpending hoffered
  · rw [hsessions]
    exact hanswered
  · rw [hsessions]
    exact id
  · refine h.stage.sessions fun mtu hidle => ?_
    rw [hsessions]
    exact ⟨Iff.rfl, hidle⟩

/-- A step of the listener that does not concern the client keeps the invariant. -/
theorem Going.serverHandles (h : Going parties past net) (hgoing : net.client ≠ .failed) {e : Listener.Event F}
    (hother : ¬ e.concerns parties.peer) (hnet : net.serverStep parties e = some net') : Going parties past net' := by
  obtain ⟨out, l, hstep, rfl⟩ := serverStep_some hnet
  obtain ⟨mtu, hidle⟩ := h.stage.idle hgoing
  obtain ⟨hpending, hout, hnone, -⟩ := other_cases hother hstep hidle
  apply h.listener
  · exact fun pc hpc => h.pending pc (hpending pc hpc)
  · exact fun b hb hhead => absurd hhead (hout b hb).1
  · exact fun b hb hhead => absurd hhead (hout b hb).2
  · exact hnone.1
  · exact h.stage.sessions fun mtu hidle => (other_cases hother hstep hidle).2.2

/-- The listener takes a probe of the client, which may become an offer. -/
theorem Going.probed (h : Going parties past net) {env : Env} {bytes : Bytes} {out : List Output}
    (hprobe : IsProbe bytes)
    (hstep : net.listener.step parties.host (.datagram env bytes parties.peer) = some (out, l)) :
    Going parties (past ++ [.serverReceives env bytes])
      { net with listener := l, toClient := net.toClient ++ packetsTo parties.peer out } := by
  have hkept := h.concat (.serverReceives env bytes)
  obtain ⟨hsessions, ⟨hout, hpending⟩ | ⟨req, mtu, hdec, hversion, hmtu, hpending, hout⟩⟩ := probe_cases hprobe hstep
  · apply hkept.listener_same hsessions
    · exact fun pc hpc => hkept.pending pc (hpending pc hpc)
    · exact fun b hb hhead => absurd hhead (hout b hb).1
    · exact fun b hb hhead => absurd hhead (hout b hb).2
  · have hnew :
        Offered parties (past ++ [.serverReceives env bytes]) (parties.host.generateCookie env parties.peer) mtu :=
      ⟨env, bytes, req, List.mem_append_right _ (List.mem_singleton_self _), hdec, hversion, rfl, hmtu⟩
    apply hkept.listener_same hsessions
    · intro pc hpc
      rw [hpending] at hpc
      cases hpc
      exact hnew
    · intro b hb hhead
      rw [hout, List.mem_singleton] at hb
      exact ⟨_, mtu, hnew, hb⟩
    · intro b hb hhead
      rw [hout, List.mem_singleton] at hb
      rw [hb, List.head?_cons] at hhead
      cases hhead

/-- The listener takes a packet of the client: a probe may become an offer, and the second request a session
with the MTU that it asks for, since the pending handshake with its cookie is the one that was offered. -/
theorem Going.serverReceives (h : Going parties past net) (hgoing : net.client ≠ .failed)
    (hdistinct : (past.filterMap (drawn parties)).Nodup) {env : Env} {bytes : Bytes} (hmem : bytes ∈ net.toServer)
    (hnet : net.serverStep parties (.datagram env bytes parties.peer) = some net') :
    Going parties (past ++ [.serverReceives env bytes]) net' := by
  obtain ⟨out, l, hstep, rfl⟩ := serverStep_some hnet
  rcases h.stage.sent hgoing hmem with hprobe | ⟨cookie, serverMtu, usedMtu, hoffered, hask, hinserted⟩
  · exact h.probed hprobe hstep
  have hkept := h.concat (.serverReceives env bytes)
  obtain ⟨hpending, hout, ⟨hsessions, hreply⟩ | ⟨pc, hpc, hcookie, hsessions⟩⟩ := ask_cases hask hstep
  · apply hkept.listener_same hsessions
    · exact fun pc hpc => hkept.pending pc (hpending pc hpc)
    · exact fun b hb hhead => absurd hhead (hout b hb)
    · exact hreply
  · -- the cookie was drawn once, so the MTU of the pending handshake is the one of the offer
    have hpast : Offered parties past cookie pc.mtu := hcookie ▸ h.pending pc hpc
    rw [hpast.unique hdistinct hoffered, ClientHandshake.min_mtuFinal] at hsessions
    have hlookup : l.sessions.lookup parties.peer =
        some (SessionState.fresh parties.host parties.peer (ClientHandshake.mtuFinal usedMtu serverMtu).toNat
          env.now) := by
      rw [hsessions]
      exact AList.lookup_insert _
    have hsome : l.sessions.lookup parties.peer ≠ none := by
      rw [hlookup]
      exact Option.some_ne_none _
    apply hkept.listener
    · exact fun pc hpc => hkept.pending pc (hpending pc hpc)
    · exact fun b hb hhead => absurd hhead (hout b hb)
    · exact fun _ _ _ => hsome
    · exact fun hnone => absurd hnone hsome
    · exact (hinserted l _ hlookup (.fresh ..)).concat _

/-! ## Runs -/

/-- What a step can be: one of the client, which receives from the server only what that has sent, or one of the
listener, with a packet of the client or with something that does not concern it. -/
theorem next_cases {a : Action F} (h : next parties net a = some net') :
    (∃ input, (∀ bytes, input = .receive bytes parties.server → bytes ∈ net.toClient) ∧
      net' = net.clientStep parties input) ∨ (∃ env bytes, a = .serverReceives env bytes ∧ bytes ∈ net.toServer ∧
        net.serverStep parties (.datagram env bytes parties.peer) = some net') ∨
      ∃ e, ¬ e.concerns parties.peer ∧ net.serverStep parties e = some net' := by
  -- the guards of the network say where a packet comes from
  cases a with
  | clientSends ok | clientWaits =>
    cases h
    refine .inl ⟨_, fun bytes hinput => ?_, rfl⟩
    cases hinput
  | clientReceives bytes =>
    obtain ⟨hmem, h⟩ := Option.ite_none_right_eq_some.1 h
    cases h
    refine .inl ⟨_, fun bytes' hinput => ?_, rfl⟩
    cases hinput
    exact hmem
  | clientDisturbed bytes source =>
    obtain ⟨hsource, h⟩ := Option.ite_none_right_eq_some.1 h
    cases h
    refine .inl ⟨_, fun bytes' hinput => ?_, rfl⟩
    cases hinput
    exact absurd rfl hsource
  | serverReceives env bytes =>
    obtain ⟨hmem, h⟩ := Option.ite_none_right_eq_some.1 h
    exact .inr (.inl ⟨env, bytes, rfl, hmem, h⟩)
  | serverHandles e =>
    obtain ⟨hother, h⟩ := Option.ite_none_left_eq_some.1 h
    exact .inr (.inr ⟨e, hother, h⟩)

/-- A client that has failed stays where it is. -/
theorem next_failed {a : Action F} (hfailed : net.client = .failed) (h : next parties net a = some net') :
    net'.client = .failed := by
  rcases next_cases h with ⟨input, -, rfl⟩ | ⟨env, bytes, -, -, hstep⟩ | ⟨e, -, hstep⟩
  · unfold Network.clientStep
    rw [hfailed]
    cases input <;> rfl
  · obtain ⟨out, l', -, rfl⟩ := serverStep_some hstep
    exact hfailed
  · obtain ⟨out, l', -, rfl⟩ := serverStep_some hstep
    exact hfailed

theorem Going.next {a : Action F} (h : Going parties past net) (hgoing : net.client ≠ .failed)
    (hdistinct : (past.filterMap (drawn parties)).Nodup) (hnext : Network.next parties net a = some net') :
    Going parties (past ++ [a]) net' := by
  rcases next_cases hnext with ⟨input, hreceived, rfl⟩ | ⟨env, bytes, rfl, hmem, hstep⟩ | ⟨e, hother, hstep⟩
  · exact (h.clientStep hreceived).concat a
  · exact h.serverReceives hgoing hdistinct hmem hstep
  · exact (h.serverHandles hgoing hother hstep).concat a

omit [Float64 F] in
theorem Going.start (hsession : l.sessions.lookup parties.peer = none)
    (hpending : l.pending.lookup parties.peer = none) : Going parties [] (start l) := by
  constructor
  · intro pc hpc
    have hsome : l.pending.lookup parties.peer = some pc := hpc
    rw [hpending] at hsome
    cases hsome
  · intro bytes hmem
    cases hmem
  · intro bytes hmem
    cases hmem
  · refine stage_nextProbe (fun m hm => hm) ⟨fun bytes hmem => ?_, hsession⟩
    cases hmem

/-- Unless the client has failed, a handshake whose cookies were drawn once each is going as it should. -/
theorem going_after {actions : List (Action F)} (hsession : l.sessions.lookup parties.peer = none)
    (hpending : l.pending.lookup parties.peer = none) (hdistinct : (actions.filterMap (drawn parties)).Nodup)
    (hrun : after parties l actions = some net) : net.client = .failed ∨ Going parties actions net := by
  refine Machine.run_advance_inv_history
    (P := fun past net => (past.filterMap (drawn parties)).Nodup → net.client = .failed ∨ Going parties past net)
    (fun past net a net' hpast hnext hdrawn => ?_) actions [] (fun _ => .inr (.start hsession hpending)) hrun hdistinct
  by_cases hfailed : net.client = .failed
  · exact .inl (next_failed hfailed hnext)
  · have hbefore : (past.filterMap (drawn parties)).Nodup := by
      rw [List.filterMap_append] at hdrawn
      exact hdrawn.of_append_left
    exact .inr (((hpast hbefore).resolve_left hfailed).next hfailed hbefore hnext)

end Going

/-- MTU agreement: however the packets of the handshake are lost, delayed, repeated and reordered, a client that is
done has a session at the listener, with the MTU that the client has settled on, and this MTU is
between the smallest one and the largest one that both parties allow. -/
theorem mtu_agreement (l : Listener F)
    (hsession : l.sessions.lookup parties.peer = none) (hpending : l.pending.lookup parties.peer = none)
    (actions : List (Action F)) (hdistinct : (actions.filterMap (drawn parties)).Nodup) (net : Network F)
    (hrun : after parties l actions = some net) (handshake : OfflineHandshake) (hdone : net.client = .done handshake) :
    (∃ state, net.listener.sessions.lookup parties.peer = some state ∧ state.managed.inner.mtu = handshake.mtu.toNat) ∧
      minimumMtuSize ≤ handshake.mtu ∧ handshake.mtu ≤ min maximumMtuSize parties.host.config.maxMtu := by
  have hgoing : Going parties actions net := by
    refine (going_after hsession hpending hdistinct hrun).resolve_left fun hfailed => ?_
    rw [hdone] at hfailed
    cases hfailed
  have hstage := hgoing.stage
  rw [hdone] at hstage
  obtain ⟨hasked, hsome⟩ := hstage
  refine ⟨?_, ?_⟩
  · obtain ⟨state, hstate⟩ := Option.ne_none_iff_exists'.1 hsome
    exact ⟨state, hstate, (hasked.session state hstate).mtu⟩
  · obtain ⟨cookie, serverMtu, usedMtu, hoffered, hmtu, -⟩ := hasked.offer
    obtain ⟨hlo, hhi⟩ := hoffered.bounds
    have hfinal := ClientHandshake.mtuFinal_toNat usedMtu serverMtu
    have hmin : (min maximumMtuSize parties.host.config.maxMtu).toNat = min 1400 parties.host.config.maxMtu.toNat :=
      ClientHandshake.toNat_min _ _
    have h576 : minimumMtuSize.toNat = 576 := rfl
    rw [UInt16.le_iff_toNat_le] at hlo hhi
    rw [hmtu, UInt16.le_iff_toNat_le, UInt16.le_iff_toNat_le, hfinal, hmin]
    omega

/-- A client at the loopback address, of a server that listens at every address. -/
def loopback : Parties := ⟨Host.plain {}, .loopbackV4, .anyV4, 2⟩

/-- The second request of this client, with the first cookie that it is given. -/
def loopbackAsk : Bytes :=
  (ClientHandshake.request2 loopback.server loopback.clientGuid
    ⟨defaultUnconnectedMagic, loopback.host.serverGuid,
    some (loopback.host.generateCookie (Env.at 0) loopback.peer), 1200⟩
    1200).encode.toOption.getD []

/-- A handshake in which the second request comes twice, and the answer to the second one is the one that comes. -/
def oneAgreement : List (Action ℚ) :=
  [.clientSends true, .serverReceives (Env.at 0) ((ClientHandshake.request1 1200).encode.toOption.getD []),
    .clientReceives (reply1Bytes loopback (loopback.host.generateCookie (Env.at 0) loopback.peer) 1200),
    .clientSends true, .serverReceives (Env.at 1) loopbackAsk, .serverReceives (Env.at 2) loopbackAsk,
    .clientReceives ((packetsTo loopback.peer (Listener.reply2 loopback.host (Env.at 2) loopback.peer 1200)).headD [])]

/-- The client is done with the MTU of its first probe, and the listener has a session with it. -/
theorem mtu_agreement_loopback : ∃ net : Network ℚ, after loopback Listener.new oneAgreement = some net ∧
    ((∃ state, net.listener.sessions.lookup loopback.peer = some state ∧ state.managed.inner.mtu = 1200) ∧
      minimumMtuSize ≤ 1200 ∧ (1200 : UInt16) ≤ min maximumMtuSize loopback.host.config.maxMtu) := by
  have hrun : (after loopback (Listener.new : Listener ℚ) oneAgreement).map (fun net => net.client) =
      some (.done ⟨1200, loopback.host.serverGuid, true⟩) := by decide +kernel
  obtain ⟨net, hafter, hdone⟩ := Option.map_eq_some_iff.1 hrun
  exact ⟨net, hafter, mtu_agreement loopback Listener.new rfl rfl oneAgreement (by decide +kernel) net hafter _ hdone⟩

end Network

end BedrockRs.Raknet.Transport
