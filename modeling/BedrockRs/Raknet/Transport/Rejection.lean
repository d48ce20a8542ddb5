/-
Rejected second requests (`listener/offline.rs`). The pending handshake of a peer is taken out of the map
before its cookie and MTU are compared with those of the request, and it is not put back when the request
is rejected: a request that anybody may send in the peer's name ends the peer's own handshake.
-/
import BedrockRs.Raknet.Transport.ListenerSpec

namespace BedrockRs.Raknet.Transport.Listener

open Lib

variable {F : Type}

/-- Nothing but the removal of expired handshakes has happened. -/
def Untouched (env : Env) (l l' : Listener F) : Prop :=
  l'.pending = (l.expirePending env.now).pending ∧ l'.sessions = l.sessions

/-- A request is rejected for its cookie or for its MTU. -/
def Rejects (pc : PendingConnection) (req : OpenConnectionRequest2) : Prop :=
  req.cookie ≠ some pc.cookie ∨ req.mtu < minimumMtuSize ∨ maximumMtuSize < req.mtu

instance (pc : PendingConnection) (req : OpenConnectionRequest2) : Decidable (Rejects pc req) :=
  inferInstanceAs (Decidable (_ ∨ _))

/-- A request completes the handshake of its sender exactly when it is not rejected. -/
theorem completes_iff_not_rejects {env : Env} {l : Listener F} {bytes : Bytes} {peer : SocketAddr}
    {req : OpenConnectionRequest2} {pc : PendingConnection}
    (hdec : RaknetPacket.decodeFrom bytes = .ok (.openConnectionRequest2 req)) (hpc : l.pending.lookup peer = some pc)
    (hlive : env.now < pc.expiresAt) : (∃ mtu, l.Completes env bytes peer mtu) ↔ ¬ Rejects pc req := by
  constructor
  · rintro ⟨mtu, req', pc', hdec', hpc', -, hcookie, hlo, hhi, -⟩
    rw [hdec] at hdec'
    rw [hpc] at hpc'
    cases hdec'
    cases hpc'
    rintro (hbad | hbad | hbad)
    · exact hbad hcookie
    · exact absurd hlo (UInt16.not_le.2 hbad)
    · exact absurd hhi (UInt16.not_le.2 hbad)
  · intro h
    unfold Rejects at h
    push Not at h
    obtain ⟨hcookie, hlo, hhi⟩ := h
    exact ⟨_, req, pc, hdec, hpc, hlive, hcookie, UInt16.not_lt.1 hlo, UInt16.not_lt.1 hhi, rfl⟩

/-- Without a pending handshake no request of the peer completes one. -/
theorem not_completes_of_lookup_none {env : Env} {l : Listener F} {bytes : Bytes} {peer : SocketAddr} {mtu : UInt16}
    (h : l.pending.lookup peer = none) : ¬ l.Completes env bytes peer mtu := by
  rintro ⟨req, pc, -, hpc, -⟩
  rw [h] at hpc
  cases hpc

section

variable [Float64 F]

theorem handleRequest2_rejects (host : Host) (env : Env) {l : Listener F} {peer : SocketAddr}
    {req : OpenConnectionRequest2} {pc : PendingConnection} (hmagic : req.magic = defaultUnconnectedMagic)
    (hpc : l.pending.lookup peer = some pc) (hrejects : Rejects pc req) :
    ∃ out, l.handleRequest2 host env peer req = (out, { l with pending := l.pending.erase peer }) := by
  unfold handleRequest2
  rw [if_neg (not_not_intro hmagic), hpc]
  dsimp only
  by_cases hcookie : req.cookie = some pc.cookie
  · rw [if_neg (not_not_intro hcookie), if_pos (hrejects.resolve_left (not_not_intro hcookie))]
    exact ⟨_, rfl⟩
  · rw [if_pos hcookie]
    exact ⟨_, rfl⟩

/-- A rejected second request takes the sender's pending handshake away: whatever the listener's state, the
call returns, the sessions are as before, and the handshake can no longer be completed by any request. -/
theorem rejected_request2_cancels (host : Host) (env : Env) (l : Listener F) (bytes : Bytes) (peer : SocketAddr)
    (req : OpenConnectionRequest2) (pc : PendingConnection)
    (hdec : RaknetPacket.decodeFrom bytes = .ok (.openConnectionRequest2 req)) (hpc : l.pending.lookup peer = some pc)
    (hlive : env.now < pc.expiresAt) (hrejected : ¬ ∃ mtu, l.Completes env bytes peer mtu) :
    ∃ out l', l.handleOffline host env bytes peer = some (out, l') ∧ ¬ Untouched env l l' ∧
      l'.sessions = l.sessions ∧ l'.pending = (l.expirePending env.now).pending.erase peer ∧
      ∀ env' bytes' mtu, ¬ l'.Completes env' bytes' peer mtu := by
  have hrejects : Rejects pc req := by
    by_contra hnot
    exact hrejected ((completes_iff_not_rejects hdec hpc hlive).2 hnot)
  have hpc' := lookup_expirePending.2 ⟨hpc, hlive⟩
  obtain ⟨out, hafter⟩ := handleRequest2_rejects host env (request2_magic hdec) hpc' hrejects
  refine ⟨out, { l with pending := (l.expirePending env.now).pending.erase peer }, ?_, ?_, rfl, rfl, ?_⟩
  · unfold handleOffline
    rw [hdec]
    exact congrArg some hafter
  · rintro ⟨hpending, -⟩
    rw [← hpending] at hpc'
    exact absurd (AList.lookup_erase _ _) (by rw [hpc']; exact Option.some_ne_none pc)
  · intro env' bytes' mtu
    exact not_completes_of_lookup_none (AList.lookup_erase _ _)

end

/-! ## A forged request -/

/-- A listener that has sent the peer its first reply, with cookie `7`. -/
def halfway : Listener F := ⟨∅, AList.insert SocketAddr.loopbackV4 ⟨1400, Duration.fromSecs 10, 7⟩ ∅⟩

/-- The second request for an MTU of 1400 with some cookie. -/
def request2With (cookie : UInt32) : Bytes :=
  0x07 :: OpenConnectionRequest2.encode ⟨defaultUnconnectedMagic, some cookie, false, .loopbackV4, 1400, 1⟩

theorem decode_request2With :
    RaknetPacket.decodeFrom (request2With 7) =
      .ok (.openConnectionRequest2 ⟨defaultUnconnectedMagic, some 7, false, .loopbackV4, 1400, 1⟩) ∧
    RaknetPacket.decodeFrom (request2With 8) =
      .ok (.openConnectionRequest2 ⟨defaultUnconnectedMagic, some 8, false, .loopbackV4, 1400, 1⟩) := by
  constructor <;> decide +kernel

theorem lookup_halfway : (halfway : Listener F).pending.lookup .loopbackV4 = some ⟨1400, Duration.fromSecs 10, 7⟩ :=
  AList.lookup_insert _

theorem forged_rejected : ¬ ∃ mtu, (halfway : Listener F).Completes (Env.at 5) (request2With 8) .loopbackV4 mtu := by
  rw [completes_iff_not_rejects decode_request2With.2 lookup_halfway (by decide), not_not]
  decide

theorem rejected_request2_cancels_forged :
    ∃ out l', (halfway : Listener ℚ).handleOffline (Host.plain {}) (Env.at 5) (request2With 8) .loopbackV4 =
      some (out, l') ∧ ¬ Untouched (Env.at 5) halfway l' ∧ l'.sessions = (halfway : Listener ℚ).sessions ∧
      l'.pending = ((halfway : Listener ℚ).expirePending 5).pending.erase .loopbackV4 ∧
      ∀ env' bytes' mtu, ¬ l'.Completes env' bytes' .loopbackV4 mtu :=
  rejected_request2_cancels _ _ _ _ _ _ _ decode_request2With.2 lookup_halfway (by decide) forged_rejected

/-- Between the two packets of a peer's handshake a forged request with another cookie arrives: the peer's own
request, which would have completed the handshake, no longer does. -/
theorem rejected_request2_not_untouched :
    (∃ mtu, (halfway : Listener ℚ).Completes (Env.at 6) (request2With 7) .loopbackV4 mtu) ∧
    ((halfway : Listener ℚ).handleOffline (Host.plain {}) (Env.at 5) (request2With 8) .loopbackV4).map
      (fun r => decide (r.2.pending.lookup SocketAddr.loopbackV4 = none)) = some true ∧
    ¬ ∀ (host : Host) (env : Env) (l : Listener ℚ) (bytes : Bytes) (peer : SocketAddr) (req : OpenConnectionRequest2)
      (pc : PendingConnection), RaknetPacket.decodeFrom bytes = .ok (.openConnectionRequest2 req) →
      l.pending.lookup peer = some pc → env.now < pc.expiresAt → (¬ ∃ mtu, l.Completes env bytes peer mtu) →
      ∃ out l', l.handleOffline host env bytes peer = some (out, l') ∧ Untouched env l l' := by
  have hgone : ((halfway : Listener ℚ).handleOffline (Host.plain {}) (Env.at 5) (request2With 8) .loopbackV4).map
      (fun r => decide (r.2.pending.lookup SocketAddr.loopbackV4 = none)) = some true := by decide +kernel
  refine ⟨?_, hgone, ?_⟩
  · rw [completes_iff_not_rejects decode_request2With.1 lookup_halfway (by decide)]
    decide
  · intro h
    obtain ⟨out, l', hstep, hpending, -⟩ := h (Host.plain {}) (Env.at 5) halfway (request2With 8) .loopbackV4 _ _
      decode_request2With.2 lookup_halfway (by decide) forged_rejected
    rw [hstep, Option.map_some, Option.some.injEq, decide_eq_true_eq] at hgone
    rw [hpending, lookup_expirePending.2 ⟨lookup_halfway, by decide⟩] at hgone
    cases hgone

end BedrockRs.Raknet.Transport.Listener
